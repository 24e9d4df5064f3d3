import Clumoove.Sanity.Sync.Cache
import Clumoove.Sanity.Sync.Directories
import Clumoove.Sanity.Sync.Evaluation
import Clumoove.Sanity.Sync.Hashes

/-! Two-way sync converges: after a pass whose tasks all complete, the two sides hold the same
files and directories. Earlier passes may have failed in part, since they leave the rows of a path
as they were or make them describe one content on both sides. Some providers delete no directories. -/

namespace Clumoove.Sync

open PathTree ThreeWay Option

/-- A two-way job over the whole source root that overwrites and propagates deletions. -/
structure Job.Mirrors (job : Job) : Prop where
  direction : job.direction = .twoWay
  strategy : job.conflictStrategy = .overwrite
  deletes : job.deletePropagation = true
  root : [] ∈ job.startPaths .source

/-- The rows of every path are absent on both sides or describe one content. -/
def RowsAgree (digest : List UInt8 → String) (rows : Baseline) : Prop :=
  ∀ p, ∃ base, BaseRows digest ((prevFiles rows.source).get p) ((prevFiles rows.target).get p) base

section Pass

variable {job : Job} {sanitize : Sanitizer} {st : State} (x : SmoothPass job sanitize st)
variable {digest : List UInt8 → String} {p : Path}

theorem agree_of_no_tasks (hjob : job.Mirrors) {a b : Option File}
    (h : verdictTasks job p (a.map File.state) (b.map File.state)
      (verdict base (a.map File.content) (b.map File.content)) = []) :
    a.map File.content = b.map File.content := by
  cases a with
  | none =>
    cases b with
    | none => rfl
    | some g =>
      by_cases hg : base = some g.content <;> simp [verdict, hg, verdictTasks, hjob.deletes] at h
  | some f =>
    cases b with
    | none =>
      by_cases hf : base = some f.content <;> simp [verdict, hf, verdictTasks, hjob.deletes] at h
    | some g =>
      by_cases hfg : f.content = g.content
      · simp [hfg]
      · by_cases hf : base = some f.content <;> by_cases hg : base = some g.content <;>
          simp [verdict, hfg, Ne.symm hfg, hf, hg, verdictTasks, conflictTasks, hjob.strategy] at h

theorem SmoothPass.contents_agree (hjob : job.Mirrors) (hinj : Function.Injective digest)
    (hhash : Hashed digest job st.trees) (hrows : RowsAgree digest st.rows)
    (hall : ∀ t ∈ x.tasksAt p, (t, true) ∈ x.exec.done) :
    (x.after .source p).map File.content = (x.after .target p).map File.content := by
  have hscope : ∀ s p, job.Scope s p := fun _ _ => job.scope_of_root hjob.root
  have hcopy := x.no_copies (by simp [hjob.strategy])
  rcases x.completed_cases hscope (fun _ => x.clear_of_no_copies hcopy) hall with
    ⟨c, hc⟩ | hgone | ⟨hnil, hsame⟩
  · rw [hc, hc]
  · rw [hgone, hgone]
  · obtain ⟨base, hbase⟩ := hrows p
    rw [x.tasksAt_twoWay hjob.direction hscope,
      twoWayTasks_verdict hinj (hhash .source p) (hhash .target p) hbase] at hnil
    rw [hsame, hsame]
    exact agree_of_no_tasks hjob hnil

theorem RowsAgree.newBaseline (hjob : job.Mirrors) (hinj : Function.Injective digest)
    (hclash : NoClash job st) (hhash : Hashed digest job st.trees)
    (hhash' : Hashed digest job x.exec.trees) (hrows : RowsAgree digest st.rows) :
    RowsAgree digest (newBaseline st.rows x.final) := by
  intro p
  by_cases hdir : ∃ s, st.KnowsDir job s p
  · -- a directory's path has no rows of files
    obtain ⟨s, hs⟩ := hdir
    have hnone := fun s₀ => x.no_file_row (s := s₀) fun s' hs' => hclash p s' s ⟨hs', hs⟩
    exact ⟨none, hnone .source, hnone .target⟩
  · have hnodir : ∀ s, ¬ st.KnowsDir job s p := fun s hs => hdir ⟨s, hs⟩
    by_cases hprot : p ∈ x.final.protectedPaths
    · obtain ⟨base, hbase⟩ := hrows p
      have hsame := fun s => x.file_row_kept (s := s) hnodir hprot
      refine ⟨base, ?_⟩
      rw [show (prevFiles (Sync.newBaseline st.rows _).source).get p = _ from hsame .source,
        show (prevFiles (Sync.newBaseline st.rows _).target).get p = _ from hsame .target]
      exact hbase
    · have hagree := x.contents_agree hjob hinj hhash hrows fun t => x.completed_of_free hprot
      have hnew := fun s => x.file_row_after_tasks (s := s) hnodir hprot
        (job.scope_of_root hjob.root) (x.clear_of_no_copies (x.no_copies (by simp [hjob.strategy])))
      have hsrc := hnew .source
      have htgt := hnew .target
      cases hf : x.after .source p with
      | none =>
        rw [hf, map_none, eq_comm, map_eq_none_iff] at hagree
        rw [hf] at hsrc
        rw [hagree] at htgt
        exact ⟨none, hsrc, htgt⟩
      | some f =>
        rw [hf, map_some, eq_comm, map_eq_some_iff] at hagree
        obtain ⟨g, hg, hcontent⟩ := hagree
        rw [hf] at hsrc
        rw [hg] at htgt
        refine ⟨some f.content, ⟨_, hsrc, (hhash' .source p f hf).describes _⟩, ⟨_, htgt, ?_⟩⟩
        rw [← hcontent]
        exact (hhash' .target p g hg).describes _

end Pass

/-- What is taken for granted about every pass: the providers report hashes of contents, before
and after, their ETags tell versions, no path is both a file and a directory, and nothing disturbs
the tasks. -/
def Orderly (job : Job) (sanitize : Sanitizer) (digest : List UInt8 → String)
    (versions : Side → Versions) (course : Course) (st : State) : Prop :=
  NoClash job st ∧ (∀ s, Honors (versions s) (st.trees.on s)) ∧ Hashed digest job st.trees ∧
    Hashed digest job (runSyncPass job sanitize course st).trees ∧
    Undisturbed job sanitize { trees := st.trees } course.runs

section Run

variable {job : Job} {sanitize : Sanitizer} {digest : List UInt8 → String}
variable {versions : Side → Versions} {h : History}

theorem Reaches.rowsAgree (hjob : job.Mirrors) (hinj : Function.Injective digest)
    (hrun : Reaches job sanitize (Orderly job sanitize digest versions) h) :
    RowsAgree digest h.st.rows := by
  induction hrun with
  | start trees => exact fun p => ⟨none, rfl, rfl⟩
  | edit trees _ ih => exact ih
  | @pass h course hreach hfit hok ih =>
    obtain ⟨hclash, hhonors, hhash, hhash', hu⟩ := hok
    have hsound : CacheSound job versions h.st.rows :=
      hreach.cacheSound fun _ _ hok => ⟨hok.1, hok.2.1⟩
    change RowsAgree digest (runSyncPass job sanitize course h.st).rows
    unfold runSyncPass at hhash' ⊢
    cases hpl : plan job course h.st with
    | none => exact ih
    | some pl =>
      rw [hpl] at hhash'
      have hcur := current_of_valid (fun s => hsound.valid (hhonors s)) hpl
      unfold finishPass
      split_ifs
      · let x : SmoothPass job sanitize h.st := ⟨⟨course, pl, hpl, hfit pl hpl, hcur⟩, hu⟩
        refine ih.newBaseline x hjob hinj hclash hhash fun s p f hf => ?_
        exact hhash' s p f (x.result_file.trans hf)
      · exact ih

end Run

/-! A run on fixed providers. -/

def mirrorJob : Job :=
  { direction := .twoWay, targetDir := ["backup"], conflictStrategy := .overwrite
    deletePropagation := true }

theorem mirrorJob_mirrors : mirrorJob.Mirrors := ⟨rfl, rfl, rfl, by decide⟩

def oneFile : Tree := .ofNodes [([], .dir ""), (["a"], .file (hexFile [1]))] (by decide)

def fileAndDir : Tree :=
  .ofNodes [([], .dir ""), (["a"], .file (hexFile [3])), (["d"], .dir "")] (by decide)

def emptyTarget : Tree := .ofNodes [([], .dir "")] (Eq.refl true)

def filledTarget : Tree :=
  .ofNodes [([], .dir ""), (["backup"], .dir ""), (["backup", "b"], .file (hexFile [2]))] (by decide)

def failingPass : Course :=
  { runs := [(uploadTask ["a"] (hexFile [1]).state false, .fails none)] }

def completePass : Course :=
  { runs := [(mkdirTask ["d"] .target, .completes {} ""),
      (uploadTask ["a"] (hexFile [3]).state false, .completes { hash := hexDigest [3] } ""),
      (downloadTask ["b"] (hexFile [2]).state, .completes { hash := hexDigest [2] } "")] }

def mirrorHistory : History :=
  (({ st := { trees := ⟨oneFile, emptyTarget⟩, rows := ⟨[], []⟩ } } : History).pass mirrorJob
    keepNames failingPass).edit mirrorJob ⟨fileAndDir, filledTarget⟩

def localJob : Job :=
  { direction := .twoWay, conflictStrategy := .overwrite, deletePropagation := true
    providers := ⟨.webdav, .localFolder⟩ }

def oneDir : Tree := .ofNodes [([], .dir ""), (["d"], .dir "")] (by decide)

/-- Both sides have the directory, and then the source loses it. -/
def localHistory : History :=
  (({ st := { trees := ⟨oneDir, oneDir⟩, rows := ⟨[], []⟩ } } : History).pass localJob
    keepNames {}).edit localJob ⟨emptyTarget, oneDir⟩

end Clumoove.Sync
