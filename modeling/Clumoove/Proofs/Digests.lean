import Clumoove.Spec.Verification

/-! Digests of different algorithms. The verification never compares them; the delta of a sync pass looks at
the digests only, and an upload may be announced with a digest of another algorithm than is said. -/

namespace Clumoove.Verification

open Sync (FileState Row Side parseHashString cleanHash isFileModified isFileMatchingTarget timesDiffer trimETag)
open Transfer (Provider)

/-- A hash of a content: none, or the content's digest under the algorithm that it names. -/
def Describes (digest : Digests) (hash : String) (content : List UInt8) : Prop :=
  hash = "" ∨ (parseHashString hash).2 = digest (parseHashString hash).1 content

def SameAlgorithm (h₁ h₂ : String) : Prop :=
  (parseHashString h₁).1 = (parseHashString h₂).1 ∧ (parseHashString h₁).1 ≠ "UNKNOWN"

def DeltaCompares (h₁ h₂ : String) : Prop := h₁ ≠ "" ∧ h₂ ≠ "" ∧ cleanHash h₁ ≠ "" ∧ cleanHash h₂ ≠ ""

/-- A comparison of two files under the hashes: where it has two digests they are of one named algorithm and
decide, and files of one content that are otherwise the same match. -/
def ComparesRight (h₁ h₂ : String) (otherwise : Prop) (matched : Bool) : Prop :=
  ∀ digest c₁ c₂, Describes digest h₁ c₁ → Describes digest h₂ c₂ →
    (DeltaCompares h₁ h₂ → ∃ algo, algo ≠ "UNKNOWN" ∧
      (matched = true ↔ digest algo c₁ = digest algo c₂)) ∧ (c₁ = c₂ → otherwise → matched = true)

section Delta

variable {digest : Digests} {curr src tgt : FileState} {prev : Row} {s : Side} {h₁ h₂ : String}
  {c c₁ c₂ : List UInt8}

theorem isFileModified_eq_of_compares (hsize : curr.size = prev.size)
    (h : DeltaCompares curr.hash (prev.modifiedHash s)) :
    isFileModified curr prev s = decide (cleanHash curr.hash ≠ cleanHash (prev.modifiedHash s)) := by
  obtain ⟨hne₁, hne₂, hclean₁, hclean₂⟩ := h
  simp [isFileModified, hsize, hne₁, hne₂, hclean₁, hclean₂]

theorem isFileMatchingTarget_eq_of_compares (hsize : src.size = tgt.size)
    (h : DeltaCompares src.hash tgt.hash) :
    isFileMatchingTarget src tgt = decide (cleanHash src.hash = cleanHash tgt.hash) := by
  obtain ⟨hne₁, hne₂, hclean₁, hclean₂⟩ := h
  simp [isFileMatchingTarget, hsize, hne₁, hne₂, hclean₁, hclean₂]

theorem digests_of_same (h₁' : Describes digest h₁ c₁) (h₂' : Describes digest h₂ c₂)
    (hcompares : DeltaCompares h₁ h₂) (hsame : SameAlgorithm h₁ h₂) :
    ∃ algo, algo ≠ "UNKNOWN" ∧ cleanHash h₁ = digest algo c₁ ∧ cleanHash h₂ = digest algo c₂ := by
  refine ⟨(parseHashString h₁).1, hsame.2, h₁'.resolve_left hcompares.1, ?_⟩
  rw [hsame.1]
  exact h₂'.resolve_left hcompares.2.1

/-- Texts that do not name one algorithm are not compared as digests under one: some hash functions give
both of them. -/
theorem sameAlgorithm_of_compared (h : ∀ digest c₁ c₂, Describes digest h₁ c₁ → Describes digest h₂ c₂ →
    ∃ algo, algo ≠ "UNKNOWN" ∧ (cleanHash h₁ = cleanHash h₂ ↔ digest algo c₁ = digest algo c₂)) :
    SameAlgorithm h₁ h₂ := by
  by_contra hnot
  have hdiff (algo : String) (h₁' : algo = (parseHashString h₁).1) (h₂' : algo = (parseHashString h₂).1)
      (hnamed : algo ≠ "UNKNOWN") : False := hnot ⟨h₁'.symm.trans h₂', h₁' ▸ hnamed⟩
  by_cases heq : cleanHash h₁ = cleanHash h₂
  · -- equal texts of contents that no algorithm takes to the same digest
    obtain ⟨algo, hnamed, hiff⟩ := h (fun a c => if c = [] then
        (if a = (parseHashString h₁).1 then cleanHash h₁ else cleanHash h₁ ++ "x")
      else if a = (parseHashString h₂).1 then cleanHash h₁ else cleanHash h₁ ++ "y") [] [0]
      (.inr (by simp [cleanHash])) (.inr (by simpa [cleanHash] using heq.symm))
    have hsame := hiff.1 heq
    simp only [if_true, List.cons_ne_nil, if_false] at hsame
    split_ifs at hsame with h₁' h₂' h₂'
    · exact hdiff algo h₁' h₂' hnamed
    all_goals simp [String.ext_iff] at hsame
  · by_cases halgo : (parseHashString h₁).1 = (parseHashString h₂).1
    · -- two bare texts, and no named algorithm tells the contents apart
      have hbare : (parseHashString h₁).1 = "UNKNOWN" := by_contra fun hne => hdiff _ rfl halgo hne
      obtain ⟨algo, hnamed, hiff⟩ := h (fun a c => if a = "UNKNOWN" then
          (if c = [] then cleanHash h₁ else cleanHash h₂) else "") [] [0]
        (.inr (by simp [cleanHash, hbare])) (.inr (by simp [cleanHash, ← halgo, hbare]))
      exact heq (hiff.2 (by simp [hnamed]))
    · obtain ⟨algo, -, hiff⟩ := h (fun a _ => if a = (parseHashString h₁).1 then cleanHash h₁
          else cleanHash h₂) [] [] (.inr (by simp [cleanHash])) (.inr (by simp [cleanHash, Ne.symm halgo]))
      exact heq (hiff.2 rfl)

theorem comparesRight_iff {matched : Bool} {otherwise : Prop}
    (hdigests : DeltaCompares h₁ h₂ → (matched = true ↔ cleanHash h₁ = cleanHash h₂))
    (hsame : otherwise → ¬ DeltaCompares h₁ h₂ → matched = true) :
    ComparesRight h₁ h₂ otherwise matched ↔ (DeltaCompares h₁ h₂ → SameAlgorithm h₁ h₂) := by
  constructor
  · intro h hcompares
    apply sameAlgorithm_of_compared
    intro digest c₁ c₂ h₁' h₂'
    rw [← hdigests hcompares]
    exact (h digest c₁ c₂ h₁' h₂').1 hcompares
  · intro h digest c₁ c₂ h₁' h₂'
    refine ⟨?_, ?_⟩
    · intro hcompares
      obtain ⟨algo, hnamed, hc₁, hc₂⟩ := digests_of_same h₁' h₂' hcompares (h hcompares)
      exact ⟨algo, hnamed, by rw [hdigests hcompares, hc₁, hc₂]⟩
    · rintro rfl hother
      by_cases hcompares : DeltaCompares h₁ h₂
      · obtain ⟨algo, -, hc₁, hc₂⟩ := digests_of_same h₁' h₂' hcompares (h hcompares)
        exact (hdigests hcompares).2 (hc₁.trans hc₂.symm)
      · exact hsame hother hcompares

theorem isFileModified_eq_false (hsize : curr.size = prev.size)
    (hnot : ¬ DeltaCompares curr.hash (prev.modifiedHash s))
    (hetag : trimETag curr.etag = trimETag prev.etag ∨ curr.etag = "" ∨ prev.etag = "")
    (htime : timesDiffer curr.lastModified prev.mtime = false) : isFileModified curr prev s = false := by
  unfold isFileModified
  rw [if_neg (not_not.2 hsize), if_neg]
  · split_ifs with h
    · rcases hetag with h' | h' | h'
      · simp [h']
      · exact absurd h' h.1
      · exact absurd h' h.2.1
    · exact htime
  · rintro ⟨hclean₁, hclean₂, hne₁, hne₂⟩
    exact hnot ⟨hne₁, hne₂, hclean₁, hclean₂⟩

theorem isFileMatchingTarget_eq_true (hsize : src.size = tgt.size)
    (hnot : ¬ DeltaCompares src.hash tgt.hash)
    (htime : timesDiffer src.lastModified tgt.lastModified = false) : isFileMatchingTarget src tgt = true := by
  unfold isFileMatchingTarget
  rw [DeltaCompares] at hnot
  rw [if_neg (not_not.2 hsize), if_neg hnot, htime]
  rfl

end Delta

/-! The verification. -/

section Verify

variable {digest : Digests} {t : Hashes} {targetHash : String} {b : Bool}

theorem same_of_compareHashes (h : compareHashes t targetHash = some b) :
    transferredHash t targetHash ≠ "" ∧ SameAlgorithm (transferredHash t targetHash) targetHash ∧
      b = decide (cleanHash (transferredHash t targetHash) = cleanHash targetHash) := by
  simp only [compareHashes] at h
  split_ifs at h with hcompare
  obtain ⟨hne, hcomparable, -, hsame⟩ := hcompare
  refine ⟨hne, ⟨hsame, ?_⟩, (Option.some.inj h).symm⟩
  intro hunknown
  rw [hunknown] at hcomparable
  revert hcomparable
  decide

theorem tryInlineHashVerify_iff : tryInlineHashVerify t answer = true ↔
    ∃ targetHash, answer = some targetHash ∧ targetHash ≠ "" ∧ compareHashes t targetHash = some true := by
  cases answer with
  | none | some => simp [tryInlineHashVerify]

end Verify

/-! Uploads. -/

/-- The algorithm that a provider's files are hashed with whatever the source hash is. -/
def nativeAlgorithm : Provider → Option String
  | .dropbox => some "DROPBOX"
  | .google | .koofr => some "MD5"
  | .onedrive => some "QUICKXOR"
  | _ => none

/-- The source hash is one that the worker can check and announce. -/
def Announced (provider : Provider) (sourceHash : String) : Prop :=
  (sourceHash ≠ "" ∧ provider ≠ .webdav ∧
    (parseHashString sourceHash).1 ∈ ["SHA1", "SHA256", "MD5", "DROPBOX"]) ∧ cleanHash sourceHash ≠ ""

/-- No digest is announced, or the provider has no algorithm of its own that the source hash does not
name. -/
def LabelledRight (provider : Provider) (sourceHash : String) : Prop :=
  ¬ Announced provider sourceHash ∨ nativeAlgorithm provider = none ∨
    nativeAlgorithm provider = some (parseHashString sourceHash).1

/-- The digest is the one of the source hash, under the provider's own algorithm where it has one. -/
theorem uploadChecksum_iff : uploadChecksum provider sourceHash = some (algo, expected) ↔
    Announced provider sourceHash ∧ (nativeAlgorithm provider).getD (parseHashString sourceHash).1 = algo ∧
      cleanHash sourceHash = expected := by
  unfold Announced
  by_cases hparsed : sourceHash ≠ "" ∧ provider ≠ .webdav ∧
      (parseHashString sourceHash).1 ∈ ["SHA1", "SHA256", "MD5", "DROPBOX"]
  · have hhasher : transferSourceHasher provider sourceHash =
        ((nativeAlgorithm provider).getD (parseHashString sourceHash).1, cleanHash sourceHash) := by
      rw [transferSourceHasher, if_pos hparsed]
      cases provider <;> rfl
    simp only [uploadChecksum, hhasher]
    by_cases hclean : cleanHash sourceHash = "" <;> simp [hclean, hparsed.1, hparsed.2.1, hparsed.2.2]
  · have hhasher : (transferSourceHasher provider sourceHash).2 = "" := by
      rw [transferSourceHasher, if_neg hparsed]
      cases provider <;> rfl
    simp only [uploadChecksum, hhasher, hparsed, false_and, iff_false]
    simp

theorem labelled_iff : (∀ digest c algo expected, Describes digest sourceHash c →
    uploadChecksum provider sourceHash = some (algo, expected) → expected = digest algo c) ↔
      LabelledRight provider sourceHash := by
  constructor
  · intro h
    by_contra hnot
    simp only [LabelledRight, not_or, not_not] at hnot
    obtain ⟨hannounced, hnone, hother⟩ := hnot
    obtain ⟨native, hnative⟩ := Option.ne_none_iff_exists'.1 hnone
    have hlabel := h (fun a _ => if a = (parseHashString sourceHash).1 then cleanHash sourceHash else "") []
      native _ (.inr (by simp [cleanHash])) (uploadChecksum_iff.2 ⟨hannounced, by rw [hnative]; rfl, rfl⟩)
    rw [if_neg fun heq => hother (by rw [hnative, heq])] at hlabel
    exact hannounced.2 hlabel
  · intro h digest c algo expected hdescribes hchecksum
    obtain ⟨hannounced, rfl, rfl⟩ := uploadChecksum_iff.1 hchecksum
    have hnamed : (nativeAlgorithm provider).getD (parseHashString sourceHash).1 =
        (parseHashString sourceHash).1 := by
      rcases h with h | h | h
      · exact absurd hannounced h
      · rw [h]
        rfl
      · rw [h]
        rfl
    rw [hnamed]
    exact hdescribes.resolve_left hannounced.1.1

/-! The results. -/

/-- The delta compares digests under one algorithm, of the contents, and does not tell equal files apart,
exactly if the hashes it compares name one algorithm; the verification always does. What an upload announces
is the digest it is called exactly if the provider has no algorithm of its own that the source hash does not
name, or nothing is announced. -/
theorem compared_under_one_algorithm (curr src tgt : FileState) (prev : Row) (s : Side) (t : Hashes)
    (provider : Provider) (sourceHash : String) :
    (curr.size = prev.size → (ComparesRight curr.hash (prev.modifiedHash s)
        ((trimETag curr.etag = trimETag prev.etag ∨ curr.etag = "" ∨ prev.etag = "") ∧
          timesDiffer curr.lastModified prev.mtime = false) (!isFileModified curr prev s) ↔
      (DeltaCompares curr.hash (prev.modifiedHash s) → SameAlgorithm curr.hash (prev.modifiedHash s)))) ∧
    (src.size = tgt.size → (ComparesRight src.hash tgt.hash
        (timesDiffer src.lastModified tgt.lastModified = false) (isFileMatchingTarget src tgt) ↔
      (DeltaCompares src.hash tgt.hash → SameAlgorithm src.hash tgt.hash))) ∧
    (∀ digest targetHash c c' b, Describes digest (transferredHash t targetHash) c →
      Describes digest targetHash c' → compareHashes t targetHash = some b →
      ∃ algo, algo ≠ "UNKNOWN" ∧ b = decide (digest algo c = digest algo c')) ∧
    (∀ answer, tryInlineHashVerify t answer = true →
      ∃ targetHash, answer = some targetHash ∧ compareHashes t targetHash = some true) ∧
    ((∀ digest c algo expected, Describes digest sourceHash c →
      uploadChecksum provider sourceHash = some (algo, expected) → expected = digest algo c) ↔
        LabelledRight provider sourceHash) := by
  refine ⟨?_, ?_, ?_, ?_, labelled_iff⟩
  · intro hsize
    refine comparesRight_iff (fun hcompares => ?_) fun hother hnot => ?_
    · rw [isFileModified_eq_of_compares hsize hcompares]
      simp
    · rw [isFileModified_eq_false hsize hnot hother.1 hother.2]
      rfl
  · intro hsize
    refine comparesRight_iff (fun hcompares => ?_) fun hother hnot => ?_
    · rw [isFileMatchingTarget_eq_of_compares hsize hcompares, decide_eq_true_eq]
    · exact isFileMatchingTarget_eq_true hsize hnot hother
  · intro digest targetHash c c' b hsource htarget h
    obtain ⟨hne, hsame, rfl⟩ := same_of_compareHashes h
    have htarget_ne : targetHash ≠ "" := by
      rintro rfl
      exact hsame.2 hsame.1
    refine ⟨_, hsame.2, ?_⟩
    rw [cleanHash, cleanHash, hsource.resolve_left hne, htarget.resolve_left htarget_ne, hsame.1]
  · intro answer h
    obtain ⟨targetHash, rfl, -, h⟩ := tryInlineHashVerify_iff.1 h
    exact ⟨targetHash, rfl, h⟩

/-- A file as both sides of a sync report it: one with its SHA-1, the other with its MD5. -/
def reported (hash : String) : FileState := { size := 1, lastModified := some 0, hash := hash, etag := "" }

def sampleDigest : Digests := fun algo _ => if algo = "MD5" then "bb" else "aa"

/-- One file, with the SHA-1 on one side and the MD5 on the other, counts as changed and as different; and
a file of Google Drive with a SHA-256 is uploaded with that digest called an MD5. -/
theorem algorithms_are_confused :
    Describes sampleDigest "SHA1:aa" [1] ∧ Describes sampleDigest "MD5:bb" [1] ∧
      isFileMatchingTarget (reported "SHA1:aa") (reported "MD5:bb") = false ∧
      isFileModified (reported "MD5:bb") ((reported "SHA1:aa").row .source) .target = true ∧
      Describes sampleDigest "SHA256:aa" [1] ∧ uploadChecksum .google "SHA256:aa" = some ("MD5", "aa") ∧
      sampleDigest "MD5" [1] ≠ "aa" := by
  refine ⟨.inr ?_, .inr ?_, ?_, ?_, .inr ?_, ?_, ?_⟩ <;> decide +kernel

end Clumoove.Verification
