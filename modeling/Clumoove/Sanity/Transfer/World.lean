import Clumoove.Spec.Transfer.World

/-! Where the names of a transfer lie, and what the outcome of a call says about the world after
it. -/

namespace Clumoove.Transfer

open GoPath Sync List

variable {p : Text} {side : Side}

theorem Plain.of_length (h : '/' ∉ name) (hlen : 3 ≤ name.length) : Plain name := by
  refine ⟨h, ?_, ?_, ?_⟩ <;>
  · rintro rfl
    simp at hlen

theorem resolve_append_text (hs : '/' ∉ suffix) (hlen : 3 ≤ suffix.length) :
    resolve (p ++ suffix) = (file p ++ suffix) :: resolve (folder p) := by
  have hplain : Plain (file p ++ suffix) := by
    refine Plain.of_length (by simp [slash_not_mem_file, hs]) ?_
    rw [length_append]
    omega
  rw [resolve_folder, folder_append hs, file_append_text hs, push_plain hplain]

/-- A suffix that no provider's cleaning alters. -/
structure Firm (suffix : Text) : Prop where
  plain : ∀ c ∈ suffix, c ≠ '/' ∧ c ≠ '\\' ∧ isSpace c = false
  long : 3 ≤ suffix.length

theorem Firm.append (h : Firm suffix) (hblanks : '/' ∉ blanks) :
    '/' ∉ blanks ++ suffix ∧ 3 ≤ (blanks ++ suffix).length := by
  refine ⟨fun hmem => (mem_append.1 hmem).elim hblanks fun hmem => (h.plain _ hmem).1 rfl, ?_⟩
  rw [length_append]
  exact Nat.le_add_left_of_le h.long

/-- Blanks at the end of a path are kept if a suffix follows. -/
theorem cleanPath_append (provider : Provider) (p : Text) : ∃ blanks, '/' ∉ blanks ∧
    ∀ suffix, Firm suffix →
      provider.cleanPath (p ++ suffix) = provider.cleanPath p ++ (blanks ++ suffix) := by
  have hslashes : ∀ suffix, Firm suffix → suffix.map (fun c => if c = '\\' then '/' else c) = suffix := by
    intro suffix h
    exact map_congr_left (fun c hc => if_neg (h.plain c hc).2.1) |>.trans (map_id _)
  cases provider with
  | sftp | s3 | smb | onedrive | google =>
    refine ⟨[], not_mem_nil, fun suffix h => ?_⟩
    simp [Provider.cleanPath, hslashes suffix h]
  | hidrive =>
    refine ⟨((p.dropWhile isSpace).reverse.takeWhile isSpace).reverse, fun hmem => ?_, fun suffix h => ?_⟩
    · have := mem_takeWhile_imp (mem_reverse.1 hmem)
      exact absurd this (by decide)
    · have hkept : ∀ l : Text, (∀ c ∈ l, isSpace c = false) → ∀ r, l ≠ [] →
          (l ++ r).dropWhile isSpace = l ++ r := by
        intro l hl r hne
        obtain ⟨c, l, rfl⟩ := exists_cons_of_ne_nil hne
        simp [hl c mem_cons_self]
      have hne : suffix ≠ [] := by
        rintro rfl
        exact absurd h.long (by decide)
      have hfirst : (p ++ suffix).dropWhile isSpace = p.dropWhile isSpace ++ suffix := by
        have := hkept suffix (fun c hc => (h.plain c hc).2.2) [] hne
        rw [append_nil] at this
        rw [dropWhile_append, this]
        split_ifs with hnil
        · simp [isEmpty_iff.1 hnil]
        · rfl
      have hlast := hkept suffix.reverse (fun c hc => (h.plain c (mem_reverse.1 hc)).2.2)
        (p.dropWhile isSpace).reverse (by simpa)
      simp only [Provider.cleanPath, hfirst, reverse_append, hlast, reverse_reverse]
      rw [← append_assoc, ← reverse_append, takeWhile_append_dropWhile, reverse_reverse]
  | nextcloud | opencloud | webdav | dropbox | ftp | magentacloud | koofr | localFolder | immich | seafile
    | mega => exact ⟨[], not_mem_nil, fun _ _ => rfl⟩

theorem locate_append_ne {a : Accounts} (hs : Firm suffix) : a.locate side (p ++ suffix) ≠ a.locate side p := by
  intro h
  have hres := congrArg Prod.snd h
  obtain ⟨blanks, hblanks, hclean⟩ := cleanPath_append (a.provider (a.account side)) p
  simp only [Accounts.locate, hclean suffix hs] at hres
  generalize (a.provider (a.account side)).cleanPath p = p at hres
  rw [resolve_append_text (hs.append hblanks).1 (hs.append hblanks).2, resolve_folder p] at hres
  have hlong := hs.long
  have hlength := congrArg List.length hres
  rcases part_cases (slash_not_mem_file p) with hdot | hup | hname
  · rw [push_dot hdot] at hlength
    simp at hlength
  · rw [hup] at hlength
    have hroot := up_not_mem_resolve (folder p)
    cases hstack : resolve (folder p) with
    | nil => simp [hstack, push] at hlength
    | cons n t =>
      have hn : n ≠ ['.', '.'] := fun hn => hroot (by rw [hstack, hn]; exact mem_cons_self)
      simp [hstack, push, hn] at hlength
      omega
  · rw [push_plain hname] at hres
    have hhead := congrArg List.length (List.cons.inj hres).1
    simp only [length_map, length_append] at hhead
    omega

theorem locate_append_ne_append {a : Accounts} (h₁ : Firm s₁) (h₂ : Firm s₂)
    (hlen : s₁.length < s₂.length) : a.locate side (p ++ s₁) ≠ a.locate side (p ++ s₂) := by
  intro h
  have hres := congrArg Prod.snd h
  obtain ⟨blanks, hblanks, hclean⟩ := cleanPath_append (a.provider (a.account side)) p
  simp only [Accounts.locate, hclean s₁ h₁, hclean s₂ h₂,
    resolve_append_text (h₁.append hblanks).1 (h₁.append hblanks).2,
    resolve_append_text (h₂.append hblanks).1 (h₂.append hblanks).2] at hres
  have hhead := congrArg List.length (List.cons.inj hres).1
  simp only [length_map, length_append] at hhead
  omega

theorem firm_staging : Firm ".tmp".toList := ⟨by simp [isSpace], by decide⟩

theorem firm_backup (id : TaskID) : Firm (".bak-".toList ++ id.text.take 8) := by
  refine ⟨fun c hc => ?_, ?_⟩
  · rcases mem_append.1 hc with hc | hc
    · exact (by simp [isSpace] : ∀ c ∈ ".bak-".toList, c ≠ '/' ∧ c ≠ '\\' ∧ isSpace c = false) c hc
    · exact id.plain c ((List.take_prefix 8 _).subset hc)
  · rw [length_append]
    exact Nat.le_add_right_of_le (by decide)

theorem locate_staging_ne (a : Accounts) (side : Side) (p : Text) :
    a.locate side (stagingPath p) ≠ a.locate side p :=
  locate_append_ne firm_staging

theorem locate_backup_ne (a : Accounts) (side : Side) (p : Text) (id : TaskID) :
    a.locate side (overwriteBackupPath p id.text) ≠ a.locate side p := by
  unfold overwriteBackupPath
  rw [append_assoc]
  exact locate_append_ne (firm_backup id)

theorem locate_staging_ne_backup (a : Accounts) (side : Side) (p : Text) (id : TaskID) :
    a.locate side (stagingPath p) ≠ a.locate side (overwriteBackupPath p id.text) := by
  unfold overwriteBackupPath
  rw [append_assoc]
  refine locate_append_ne_append firm_staging (firm_backup id) ?_
  rw [length_append]
  exact Nat.lt_of_lt_of_le (by decide : ".tmp".toList.length < ".bak-".toList.length)
    (Nat.le_add_right _ _)

variable {ι : Type} {w w' v : World ι} {o : Outcome} {α : Type}

theorem effect_cases (h : o.effect w x w' = some (r, v)) :
    (r = .ok x ∧ v = w') ∨ ∃ fault, r = .error fault ∧ (v = w ∨ v = w') := by
  cases o with
  | ok =>
    cases h
    exact .inl ⟨rfl, rfl⟩
  | failed fault =>
    cases h
    exact .inr ⟨fault, rfl, .inl rfl⟩
  | lost fault =>
    cases h
    exact .inr ⟨fault, rfl, .inr rfl⟩
  | vault | listing | time => cases h

theorem answer_world {read : Outcome → Option α} (h : o.answer w read = some (r, v)) : v = w := by
  unfold Outcome.answer at h
  split at h
  · cases h
    rfl
  · cases h
    rfl
  · cases h

theorem missing_cases (h : o.missing w = some (r, v)) : ∃ fault, r = .error fault ∧ v = w := by
  cases o with
  | failed fault =>
    cases h
    exact ⟨fault, rfl, rfl⟩
  | ok | lost | vault | listing | time => cases h

theorem effect_or (h : o.effect w x w' = some (r, v)) : v = w ∨ v = w' := by
  rcases effect_cases h with ⟨-, h⟩ | ⟨_, -, h⟩
  · exact .inr h
  · exact h

variable {a : Accounts} {i : ι} {c : Call}

theorem lock_cases (h : w.lock i targetPath = some (r, v)) :
    r = .ok () ∧ ((targetPath = [] ∨ targetPath = ['/']) ∧ v = w ∨
      w.locks.get targetPath = none ∧ v = { w with locks := w.locks.set targetPath i }) := by
  unfold World.lock at h
  split_ifs at h with hroot htaken
  · cases h
    exact ⟨rfl, .inl ⟨hroot, rfl⟩⟩
  · cases h
    exact ⟨rfl, .inr ⟨by simpa using htaken, rfl⟩⟩

variable [DecidableEq ι]

/-- What a call can do to the world: nothing, take a lock, change objects, or change its own row. -/
inductive Effect (a : Accounts) (i : ι) (w : World ι) : Call → World ι → Prop
  | none {c : Call} : Effect a i w c w
  | lock {p : Text} : w.locks.get p = none →
      Effect a i w (.lockTargetFile p) { w with locks := w.locks.set p i }
  | delete {side : Side} {p : Text} : Effect a i w (.deleteFile side p) (w.remove (a.locate side p))
  | rename {side : Side} {p q : Text} {content : Content} :
      w.objects.get (a.locate side p) = some content →
      Effect a i w (.renameFile side p q) ((w.remove (a.locate side p)).put (a.locate side q) content)
  | upload {side : Side} {p : Text} {content : Content} :
      Effect a i w (.streamUpload side p content) (w.put (a.locate side p) content)
  | resolved {p : Text} :
      Effect a i w (.updateResolvedTargetPath p) (w.setRow i { w.rows i with resolved := p })
  | skip : Effect a i w .skip (w.setRow i { w.rows i with progress := .skipped })
  | complete : Effect a i w .complete (w.setRow i { w.rows i with progress := .completed })

theorem Effect.of_effect
    (h : o.effect w x w' = some (r, v)) (h' : Effect a i w c w') : Effect a i w c v := by
  rcases effect_or h with rfl | rfl
  · exact .none
  · exact h'

theorem exec_effect {r : Except Fault c.Val} (h : exec a i c o w = some (r, v)) :
    Effect a i w c v := by
  cases c with
  | prepare | createDirectory | createParentDirectories | fileExists | updateMetadata =>
    exact .of_effect h .none
  | inVault | getDirectoryListing | now =>
    simp only [exec] at h
    rw [answer_world h]
    exact .none
  | lockTargetFile p =>
    cases o with
    | ok =>
      obtain ⟨-, ⟨-, rfl⟩ | ⟨hfree, rfl⟩⟩ := lock_cases h
      · exact .none
      · exact .lock hfree
    | failed | lost | vault | listing | time => cases h
  | deleteFile side p => exact .of_effect h .delete
  | renameFile side p q =>
    simp only [exec] at h
    split at h
    · obtain ⟨_, -, rfl⟩ := missing_cases h
      exact .none
    · exact .of_effect h (.rename ‹_›)
  | streamDownload side p =>
    simp only [exec] at h
    split at h
    · obtain ⟨_, -, rfl⟩ := missing_cases h
      exact .none
    · exact .of_effect h .none
  | streamUpload side p content => exact .of_effect h .upload
  | updateResolvedTargetPath p => exact .of_effect h .resolved
  | skip => exact .of_effect h .skip
  | complete => exact .of_effect h .complete

theorem exec_rename
    (h : w.objects.get (a.locate side p) = some content) : exec a i (.renameFile side p q) o w =
      o.effect w () ((w.remove (a.locate side p)).put (a.locate side q) content) := by
  simp only [exec, h]

theorem exec_rename_missing (h : w.objects.get (a.locate side p) = none) :
    exec a i (.renameFile side p q) o w = o.missing w := by
  simp only [exec, h]

theorem download_ok (h : exec a i (.streamDownload side p) o w = some (.ok content, v)) :
    w.objects.get (a.locate side p) = some content := by
  simp only [exec] at h
  split at h
  · obtain ⟨_, hr, -⟩ := missing_cases h
    cases hr
  · rcases effect_cases h with ⟨hr, -⟩ | ⟨_, hr, -⟩
    · cases hr
      assumption
    · cases hr

def Call.Writes (a : Accounts) (l : Location) : Call → Prop
  | .deleteFile side p => l = a.locate side p
  | .renameFile side p q => l = a.locate side p ∨ l = a.locate side q
  | .streamUpload side p _ => l = a.locate side p
  | _ => False

theorem exec_objects (h : exec a i c o w = some (r, v))
    (hl : ¬c.Writes a l) : v.objects.get l = w.objects.get l := by
  cases exec_effect h with
  | none | lock | resolved | skip | complete => rfl
  | delete => exact GoMap.get_erase.trans (if_neg hl)
  | rename =>
    obtain ⟨hp, hq⟩ := not_or.1 hl
    exact (GoMap.get_set.trans (if_neg hq)).trans (GoMap.get_erase.trans (if_neg hp))
  | upload => exact GoMap.get_set.trans (if_neg hl)

theorem exec_rows_ne (h : exec a i c o w = some (r, v)) (hj : j ≠ i) : v.rows j = w.rows j := by
  cases exec_effect h with
  | none | lock | delete | rename | upload => rfl
  | resolved | skip | complete => simp [World.setRow, hj]

theorem exec_locks (h : exec a i c o w = some (r, v))
    (hp : w.locks.get p = some j) : v.locks.get p = some j := by
  cases exec_effect h with
  | none | delete | rename | upload | resolved | skip | complete => exact hp
  | @lock q hfree =>
    have hne : p ≠ q := by
      intro heq
      rw [heq, hfree] at hp
      cases hp
    exact (GoMap.get_set.trans (if_neg hne)).trans hp

theorem exec_lock (hp : p ≠ [] ∧ p ≠ ['/'])
    (h : exec a i (.lockTargetFile p) o w = some (r, v)) : v.locks.get p = some i := by
  cases o with
  | ok =>
    obtain ⟨-, ⟨hroot, -⟩ | ⟨-, rfl⟩⟩ := lock_cases h
    · exact absurd hroot (not_or.2 hp)
    · exact GoMap.get_set.trans (if_pos rfl)
  | failed | lost | vault | listing | time => cases h

theorem unlock_locks (hj : j ≠ i) (hp : w.locks.get p = some j) :
    (w.unlock i).locks.get p = some j := by
  unfold World.unlock
  generalize w.locks = m at hp
  induction m with
  | nil => cases hp
  | cons e m ih =>
    rw [GoMap.get_cons] at hp
    rw [filter_cons]
    split_ifs at hp with hkey
    · have hkeep : (decide (e.2 ≠ i)) = true := by
        cases hp
        exact decide_eq_true hj
      rw [if_pos hkeep, GoMap.get_cons, if_pos hkey]
      exact hp
    · split_ifs with hkeep
      · rw [GoMap.get_cons, if_neg hkey]
        exact ih hp
      · exact ih hp

theorem exec_resolved (h : exec a i c o w = some (r, v)) (j : ι) :
    (v.rows j).resolved = (w.rows j).resolved ∨
      j = i ∧ c = .updateResolvedTargetPath (v.rows j).resolved := by
  cases exec_effect h with
  | none | lock | delete | rename | upload => exact .inl rfl
  | resolved =>
    by_cases hj : j = i
    · subst hj
      exact .inr ⟨rfl, by simp [World.setRow]⟩
    · exact .inl (by simp [World.setRow, hj])
  | skip | complete =>
    by_cases hj : j = i
    · subst hj
      exact .inl (by simp [World.setRow])
    · exact .inl (by simp [World.setRow, hj])

section Objects

omit [DecidableEq ι]

@[simp] theorem World.get_put (l l' : Location) (content : Content) :
    (w.put l content).objects.get l' = if l' = l then some content else w.objects.get l' :=
  GoMap.get_set

@[simp] theorem World.get_remove (l l' : Location) :
    (w.remove l).objects.get l' = if l' = l then none else w.objects.get l' :=
  GoMap.get_erase

@[simp] theorem World.rows_remove (l : Location) : (w.remove l).rows = w.rows := rfl

end Objects

@[simp] theorem World.objects_setRow (row : Row) : (w.setRow i row).objects = w.objects := rfl

@[simp] theorem World.rows_setRow (row : Row) : (w.setRow i row).rows i = row := by
  simp [World.setRow]

theorem World.rows_setRow_ne (row : Row) (h : j ≠ i) : (w.setRow i row).rows j = w.rows j := by
  simp [World.setRow, h]

@[simp] theorem World.objects_unlock : (w.unlock i).objects = w.objects := rfl

/-! A small setting to run. -/

def asciiLib : GoLib where
  so _ := false
  mn _ := false
  cf _ := false
  toLower := List.map Char.toLower
  trimSpace := id
  equalFold a b := a.map Char.toLower = b.map Char.toLower
  yearMonth _ := none

def twoAccounts : Accounts where
  account
    | .source => 0
    | .target => 1
  provider
    | 0 => .webdav
    | _ => .localFolder
  fold _ := id

def sampleID : TaskID := ⟨"id".toList, by simp [isSpace]⟩

def intoDirectory (filePath : Text) : Setting Unit where
  lib := asciiLib
  accounts := twoAccounts
  job _ := .migration
    { targetDir := "/t".toList, sourceProvider := .webdav, targetProvider := .localFolder,
      conflictStrategy := .overwrite }
    { id := sampleID, filePath, fileSize := 1 }

end Clumoove.Transfer
