import Clumoove.Spec.System

/-! What an operation can do to the world, whatever its outcome: a transaction is committed as a
whole or not at all, and no other operation touches the catalogue. -/

namespace Clumoove

variable {op : Op} {q : SqlOp} {w w' : World} {o : Outcome}

theorem carryOut_sql (host : Host) (q : SqlOp) (w : World) :
    (carryOut host (.sql q) w).2 = { w with db := q.tx.commit w.db } := by
  simp only [carryOut, Tx.commit]
  cases q.tx w.db <;> rfl

theorem exec_sql (h : Exec (.sql q) w o r w') :
    w' = { w with db := q.tx.commit w.db } ∨ (o = .fault ∧ w' = w) := by
  cases h with
  | done host => exact .inl (carryOut_sql host q w)
  | fault => exact .inr ⟨rfl, rfl⟩
  | lost host => exact .inl (carryOut_sql host q w)

theorem exec_sql_ok (h : Exec (.sql q) w o (.ok v) w') :
    ∃ db, q.tx w.db = .ok (v, db) ∧ w' = { w with db := db } := by
  generalize hr : (Except.ok v : (Op.sql q).Res) = r at h
  cases h with
  | done host =>
    simp only [carryOut] at hr ⊢
    cases htx : q.tx w.db with
    | error e => simp only [htx] at hr; cases hr
    | ok res =>
      simp only [htx] at hr
      cases hr
      exact ⟨res.2, rfl, rfl⟩
  | fault => cases hr
  | lost => cases hr

theorem exec_db (h : Exec op w o r w') (hop : ∀ q, op ≠ .sql q) : w'.db = w.db := by
  have hdone : ∀ host, (carryOut host op w).2.db = w.db := fun host => by
    cases op with
    | sql q => exact absurd rfl (hop q)
    | fileExists path => simp only [carryOut]; split <;> rfl
    | streamUpload path content => rfl
    | streamDownload | deleteFile => simp only [carryOut]; split <;> rfl
    | ask x => rfl
    | halt => rfl
  cases h with
  | done host => exact hdone host
  | fault => rfl
  | lost host => exact hdone host
  | truncated => rfl
  | broken => rfl

theorem exec_cases (h : Exec op w o r w') :
    (∃ q, op = .sql q ∧ w' = { w with db := q.tx.commit w.db }) ∨ w'.db = w.db := by
  by_cases hop : ∃ q, op = .sql q
  · obtain ⟨q, rfl⟩ := hop
    rcases exec_sql h with hw | ⟨-, rfl⟩
    · exact .inl ⟨q, rfl, hw⟩
    · exact .inr rfl
  · exact .inr (exec_db h fun q hq => hop ⟨q, hq⟩)

end Clumoove
