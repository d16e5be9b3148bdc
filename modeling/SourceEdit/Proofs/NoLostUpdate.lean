import SourceEdit.Proofs.History
import SourceEdit.Proofs.Saving

/-!
A document and others who change its file. What the document last read from its file or wrote there
is all that its own save overwrites, in whatever order its edits, its saves and the changes of the
others come.
-/

set_option autoImplicit false

namespace SourceEdit

open FileSystem (lockPath)
open SourceEdit.Path (Splits)

namespace Document

theorem sameFile_act (d : Document) (a : Action) : SameFile d (d.act a).1 := by
  cases a with
  | block edits cursor => exact sameFile_edit d edits cursor
  | undo =>
    unfold act undo
    dsimp only
    split <;> exact ⟨rfl, rfl⟩
  | redo =>
    unfold act redo
    dsimp only
    split <;> exact ⟨rfl, rfl⟩
  | moveTo => exact ⟨rfl, rfl⟩
  | select => exact ⟨rfl, rfl⟩

end Document

/-- A document with the tree it is saved in. `file` and `known` only keep the account: the path that
was last loaded or saved to, and the bytes that were read or written then. -/
structure Session where
  fs : FileSystem
  document : Document
  file : Path
  known : Octets

namespace Session

inductive Event where
  | act (a : Document.Action)
  | save (p : Option Path)
  | outside (entries : Table Location Entry)

def loaded (fs : FileSystem) (p : Path) (d : Document) : Session :=
  let file := Path.absolute fs.workDir p
  ⟨fs, d, file, (fs.content? file).getD []⟩

def target (s : Session) (p : Option Path) : Path :=
  match p.filter (!·.isEmpty) with
  | some p => Path.absolute s.fs.workDir p
  | none => s.file

/-- The tree is clear for a save, once the directories on the way are made. -/
def ClearFor (s : Session) (p : Option Path) : Prop :=
  Document.Clear (s.fs.makeParents (lockPath (s.target p))).1 (s.target p)

instance (s : Session) (p : Option Path) : Decidable (s.ClearFor p) :=
  inferInstanceAs (Decidable (Document.Clear _ _))

/-- The document knows its file as it is kept in the account. -/
structure Known (s : Session) : Prop where
  workDir : Path.isAbsolute s.fs.workDir = true
  splits : ∃ above name, Splits s.file above name
  fileName : s.document.fileName = some s.file
  disk : s.document.disk = some s.known

theorem known_loaded {fs : FileSystem} {p : Path} {d₀ d : Document}
    (habsolute : Path.isAbsolute fs.workDir = true) (hload : d₀.load fs p = .ok d) :
    (loaded fs p d).Known := by
  unfold Document.load at hload
  cases hread : fs.read (Path.absolute fs.workDir p) with
  | error => simp [hread, bind, Except.bind] at hload
  | ok content =>
    simp only [hread, bind, Except.bind, Except.ok.injEq] at hload
    have hcontent : fs.content? (Path.absolute fs.workDir p) = some content := by
      rw [FileSystem.content?, hread]
      rfl
    subst hload
    refine ⟨habsolute, ?_, rfl, ?_⟩
    · obtain ⟨q, hq, heq⟩ := Path.absolute_eq_normalize habsolute p
      exact Document.splits_of_octets? hq heq (FileSystem.octets?_of_content? hcontent)
    · dsimp only [loaded]
      rw [hcontent]
      rfl

theorem Known.target_eq {s : Session} (h : s.Known) (p : Option Path) :
    s.document.target? s.fs p = some (s.target p) := by
  unfold Document.target? target
  cases p.filter (!·.isEmpty) with
  | none => exact h.fileName
  | some => rfl

section
variable [FileLock]

def step (s : Session) : Event → Session
  | .act a => { s with document := (s.document.act a).1 }
  | .save p =>
    match s.document.save s.fs p with
    | (fs, d, none) => ⟨fs, d, s.target p, Utf8.encode s.document.text⟩
    | (fs, d, some _) => { s with fs := fs, document := d }
  | .outside entries => { s with fs := { s.fs with entries := entries } }

def run (s : Session) (events : List Event) : Session := events.foldl step s

/-- The tree is clear for every save of a run. -/
def ClearAlong (s : Session) : List Event → Prop
  | [] => True
  | e :: es => (match e with | .save p => s.ClearFor p | _ => True) ∧ (s.step e).ClearAlong es

instance decidableClearAlong (s : Session) (events : List Event) :
    Decidable (s.ClearAlong events) :=
  match events with
  | [] => .isTrue trivial
  | e :: es =>
    have := decidableClearAlong (s.step e) es
    match e with
    | .save p => inferInstanceAs (Decidable (s.ClearFor p ∧ _))
    | .act _ | .outside _ => inferInstanceAs (Decidable (True ∧ _))

theorem Known.splits_target {s : Session} (h : s.Known) {p : Option Path}
    (hsaved : (s.document.saveTo s.fs (s.target p)).2.2 = none) :
    ∃ above name, Splits (s.target p) above name := by
  unfold target at hsaved ⊢
  cases hp : p.filter (!·.isEmpty) with
  | none => exact h.splits
  | some q =>
    rw [hp] at hsaved
    obtain ⟨q', habsolute, heq⟩ := Path.absolute_eq_normalize h.workDir q
    exact Document.splits_of_saved habsolute heq hsaved

theorem clearAlong_append {s : Session} {es es' : List Event} :
    s.ClearAlong (es ++ es') ↔ s.ClearAlong es ∧ (s.run es).ClearAlong es' := by
  induction es generalizing s with
  | nil => exact ⟨fun h => ⟨trivial, h⟩, And.right⟩
  | cons e es ih =>
    exact (and_congr_right fun _ => ih).trans and_assoc.symm

section
variable [LawfulFileLock]

theorem Known.step {s : Session} (h : s.Known) (e : Event)
    (hclear : ∀ p, e = .save p → s.ClearFor p) : (s.step e).Known := by
  cases e with
  | act a =>
    have hsame := Document.sameFile_act s.document a
    exact ⟨h.workDir, h.splits, hsame.fileName.trans h.fileName, hsame.disk.trans h.disk⟩
  | outside entries => exact ⟨h.workDir, h.splits, h.fileName, h.disk⟩
  | save p =>
    have hsave := Document.save_eq_saveTo (h.target_eq p)
    have hworkDir := Document.workDir_saveTo s.document s.fs (s.target p)
    unfold Session.step
    dsimp only
    split
    · next fs d hok =>
      rw [hsave] at hok
      obtain ⟨above, name, hsplits⟩ := h.splits_target (p := p) (by rw [hok])
      obtain ⟨hname, hdisk⟩ :=
        Document.saveTo_saved hsplits (hclear p rfl) (by rw [hok])
      rw [hok] at hname hdisk hworkDir
      exact ⟨hworkDir ▸ h.workDir, ⟨above, name, hsplits⟩, hname, hdisk⟩
    · next fs d failure hfailed =>
      rw [hsave] at hfailed
      have hsame : (s.document.saveTo s.fs (s.target p)).2.1 = s.document :=
        Document.saveTo_failed (by rw [hfailed]; simp)
      rw [hfailed] at hsame hworkDir
      dsimp only at hsame
      rw [hsame]
      exact ⟨hworkDir ▸ h.workDir, h.splits, h.fileName, h.disk⟩

theorem Known.run {s : Session} (h : s.Known) (events : List Event)
    (hclear : s.ClearAlong events) : (s.run events).Known := by
  induction events generalizing s with
  | nil => exact h
  | cons e es ih =>
    refine ih (h.step e fun p hp => ?_) hclear.2
    subst hp
    exact hclear.1

/-- For every run of a document that was loaded from a file, through edits, saves and changes by
others, with the tree clear for each save: its own save finds no file or what the document last read
or wrote, or it fails and the file is as it was. -/
theorem own_save_finds_known {fs : FileSystem} {p : Path} {d₀ d : Document}
    (habsolute : Path.isAbsolute fs.workDir = true) (hload : d₀.load fs p = .ok d)
    (events : List Event) (hclear : (loaded fs p d).ClearAlong (events ++ [.save none])) :
    let s := (loaded fs p d).run events
    let saved := s.document.save s.fs none
    (saved.2.2 = none → s.fs.octets? s.file = none ∨ s.fs.octets? s.file = some s.known) ∧
      ∀ c, s.fs.octets? s.file = some c → c ≠ s.known →
        saved.2.2 ≠ none ∧ saved.1.octets? s.file = some c := by
  obtain ⟨hrun, hown, -⟩ := clearAlong_append.mp hclear
  have hknown := (known_loaded habsolute hload).run events hrun
  generalize (loaded fs p d).run events = s at hknown hown
  dsimp only
  have hrefused : ∀ c, s.fs.octets? s.file = some c → c ≠ s.known →
      (s.document.save s.fs none).2.2 ≠ none ∧
        (s.document.save s.fs none).1.octets? s.file = some c := by
    intro c hc hne
    obtain ⟨above, name, hsplits⟩ := hknown.splits
    have hclear : Document.Clear (s.fs.makeParents (lockPath s.file)).1 s.file := hown
    rw [FileSystem.makeParents_of_octets? hsplits hc] at hclear
    have hread := (hclear.readable s.file (by simp)).content?_eq hc
    rw [Document.save_eq_saveTo (hknown.target_eq none)]
    obtain ⟨hfailed, hkept⟩ :=
      Document.saveTo_refused hsplits hknown.fileName hknown.disk hclear.lock hread hne
    exact ⟨hfailed, FileSystem.octets?_of_content? hkept⟩
  refine ⟨fun hsaved => ?_, hrefused⟩
  cases hc : s.fs.octets? s.file with
  | none => exact .inl rfl
  | some c =>
    by_cases hne : c = s.known
    · exact .inr (by rw [hne])
    · exact absurd hsaved (hrefused c hc hne).1

end

end

def sampleTree (linked : Bool) : FileSystem where
  entries := ([['a']], .file (Utf8.encode ['1']) {}) ::
    if linked then [(["a.tmp".toList], .link ['a'])] else []
  workDir := ['/']
  home := ['/']

def sampleDocument : Document :=
  { Document.new .source ['1'] (some ['/', 'a']) with disk := some (Utf8.encode ['1']) }

/-- The document is changed and saved; then others put their own file in its place. -/
def sampleRun : List Event :=
  [.act (.block [.insertion 0 ['0']] none), .save none,
    .outside [([['a']], .file (Utf8.encode ['2']) {})]]

theorem own_save_refused_after_others :
    let s := (loaded (sampleTree false) ['a'] sampleDocument).run sampleRun
    (Document.new .source [] none).load (sampleTree false) ['a'] = .ok sampleDocument ∧
      (loaded (sampleTree false) ['a'] sampleDocument).ClearAlong (sampleRun ++ [.save none]) ∧
      (s.document.save s.fs none).2.2 ≠ none ∧
      (s.document.save s.fs none).1.octets? s.file = some (Utf8.encode ['2']) := by
  have hload : (Document.new .source [] none).load (sampleTree false) ['a'] =
      .ok sampleDocument := by decide +kernel
  have hclear : (loaded (sampleTree false) ['a'] sampleDocument).ClearAlong
      (sampleRun ++ [.save none]) := by decide +kernel
  refine ⟨hload, hclear, ?_⟩
  exact (own_save_finds_known rfl hload sampleRun hclear).2 (Utf8.encode ['2'])
    (by decide +kernel) (by decide +kernel)

/-- With the link at the temporary path the first save leaves a link that leads to itself, and the
second one overwrites what it does not know. -/
theorem own_save_overwrites_others :
    let s := (loaded (sampleTree true) ['a'] sampleDocument).run sampleRun
    (Document.new .source [] none).load (sampleTree true) ['a'] = .ok sampleDocument ∧
      s.fs.octets? s.file = some (Utf8.encode ['2']) ∧ s.known = Utf8.encode ['0', '1'] ∧
      (s.document.save s.fs none).2.2 = none ∧
      (s.document.save s.fs none).1.octets? s.file = some (Utf8.encode ['0', '1']) := by
  decide +kernel

end Session

end SourceEdit
