import SourceEdit.Proofs.OpenDocuments

set_option autoImplicit false

namespace SourceEdit

theorem Document.kind_ofFile {kind : DocumentKind} {fs : FileSystem} {p : Path} {d : Document}
    (h : ofFile kind fs p = .ok d) : d.kind = kind := by
  unfold ofFile load at h
  cases hread : fs.read (Path.absolute fs.workDir p) with
  | error => simp [hread, bind, Except.bind] at h
  | ok content =>
    simp only [hread, bind, Except.bind, Except.ok.injEq] at h
    rw [← h]
    rfl

namespace Editor

variable {e : Editor} {project : Project} {id : DocumentId}

def current? (e : Editor) : Option DocumentId := e.project.bind (·.current)

/-- The documents are as before, and so is the project with what is open in it and which document is
current. -/
structure Undisturbed (e e' : Editor) : Prop where
  project : e'.project = e.project
  documents : e'.documents = e.documents

/-- The kind of the document that is open under a path, or else of the one that would be opened from
it, if that can be done. -/
def kindAt? (e : Editor) (project : Project) (p : Path) : Option DocumentKind :=
  let p := project.pathOf e.fs p
  match project.documentAt? p with
  | some id => (e.document? id).map (·.kind)
  | none =>
    let kind := project.settings.kindOf p
    if (Document.ofFile kind e.fs p).isOk then some kind else none

/-- The document that is open under a path is the current one already. -/
def IsCurrentAt (e : Editor) (project : Project) (p : Path) : Prop :=
  ∃ id, project.documentAt? (project.pathOf e.fs p) = some id ∧ project.current = some id

/-- Nothing is open under a path, and the file cannot be read. -/
def CannotOpen (e : Editor) (project : Project) (p : Path) : Prop :=
  e.kindAt? project p = none ∧ project.documentAt? (project.pathOf e.fs p) = none

/-- The answer is a source file, and it is the current document now. -/
def AnswersCurrent (e : Editor) (id : DocumentId) : Prop :=
  ∃ id', (e.openCounterpart id).2 = .ok (some id') ∧
    (e.openCounterpart id).1.isSource id' = true ∧ (e.openCounterpart id).1.current? = some id'

/-- There is no answer, and nothing was opened or made current. -/
def AnswersNothing (e : Editor) (id : DocumentId) : Prop :=
  (e.openCounterpart id).2 = .ok none ∧ Undisturbed e (e.openCounterpart id).1

theorem isSource_eq_true_iff {id : DocumentId} :
    e.isSource id = true ↔ (e.document? id).map (·.kind) = some .source := by
  unfold isSource
  cases e.document? id <;> simp

theorem openFile_cases (hproject : e.project = some project) (p : Path) :
    (∃ failure, e.openFile project p = (e, .error failure) ∧ e.CannotOpen project p) ∨
    ∃ e' id, e.openFile project p = (e', .ok id) ∧ e'.current? = some id ∧
      ¬e.CannotOpen project p ∧ e.kindAt? project p = (e'.document? id).map (·.kind) ∧
      (Undisturbed e e' ↔ e.IsCurrentAt project p) := by
  unfold openFile CannotOpen kindAt? IsCurrentAt
  dsimp only
  cases hopen : project.documentAt? (project.pathOf e.fs p) with
  | some id =>
    refine .inr ⟨_, id, rfl, rfl, by simp, rfl, fun h => ⟨id, rfl, ?_⟩, ?_⟩
    · have hsame : some { project with current := some id } = some project :=
        h.project.trans hproject
      rw [← Option.some.inj hsame]
    · rintro ⟨id', hid, hcurrent⟩
      refine ⟨?_, rfl⟩
      rw [hid, ← hcurrent, hproject]
  | none =>
    cases hfile : Document.ofFile (project.settings.kindOf (project.pathOf e.fs p)) e.fs
        (project.pathOf e.fs p) with
    | error failure => exact .inl ⟨.file failure, rfl, rfl, rfl⟩
    | ok d =>
      refine .inr ⟨_, _, rfl, rfl, by simp [Except.isOk, Except.toBool], ?_, fun h => ?_, ?_⟩
      · rw [document?, addDocument, List.getElem?_concat_length, Option.map_some,
          Document.kind_ofFile hfile]
        rfl
      · have hlength := congrArg List.length h.documents
        simp [addDocument] at hlength
      · rintro ⟨_, hnone, -⟩
        contradiction

theorem exists_counterpart (e : Editor) (id : DocumentId) :
    ∃ cache, (e.counterpart id).1 = { e with cache := cache } := by
  unfold counterpart
  split
  · exact ⟨e.cache, rfl⟩
  · exact ⟨_, rfl⟩

theorem answersNothing_of_not_found (h : (e.counterpart id).2 = none) : e.AnswersNothing id := by
  obtain ⟨cache, hcache⟩ := e.exists_counterpart id
  unfold AnswersNothing openCounterpart
  split
  · next hfound =>
    rw [hfound] at hcache
    rw [show _ = _ from hcache]
    exact ⟨rfl, rfl, rfl⟩
  · next hfound =>
    rw [hfound] at h
    contradiction

theorem exists_openCounterpart (hproject : e.project = some project) {q : Path}
    (h : (e.counterpart id).2 = some q) : ∃ cache, ∀ e' result,
      ({ e with cache := cache }).openFile project q = (e', result) →
        e.openCounterpart id =
          (e', result.map fun id => if e'.isSource id then some id else none) := by
  obtain ⟨cache, hcache⟩ := e.exists_counterpart id
  refine ⟨cache, fun opened result hopened => ?_⟩
  unfold openCounterpart
  split
  · next hfound =>
    rw [hfound] at h
    contradiction
  · next e' q' hfound =>
    rw [hfound] at h hcache
    obtain rfl := Option.some.inj h
    obtain rfl : e' = _ := hcache
    simp only [hproject] at hopened ⊢
    rw [hopened]
    cases result <;> rfl

/-- A counterpart that is found cannot be opened, or it is opened and becomes current, and then it
is the answer just if it is a source file. -/
theorem openCounterpart_cases (hproject : e.project = some project) {q : Path}
    (h : (e.counterpart id).2 = some q) :
    ((∃ failure, (e.openCounterpart id).2 = .error failure) ∧
      Undisturbed e (e.openCounterpart id).1 ∧ e.CannotOpen project q) ∨
    ∃ id', (e.openCounterpart id).1.current? = some id' ∧ ¬e.CannotOpen project q ∧
      ((e.openCounterpart id).1.isSource id' = true ↔ e.kindAt? project q = some .source) ∧
      (e.openCounterpart id).2 =
        .ok (if e.kindAt? project q = some .source then some id' else none) ∧
      (Undisturbed e (e.openCounterpart id).1 ↔ e.IsCurrentAt project q) := by
  obtain ⟨cache, heq⟩ := exists_openCounterpart hproject h
  -- the cache has no part in how a file is opened
  rcases openFile_cases (e := { e with cache := cache }) hproject q with
    ⟨failure, hresult, hcannot⟩ | ⟨e', id', hresult, hcurrent, hcan, hkind, hsame⟩
  · rw [heq _ _ hresult]
    exact .inl ⟨⟨failure, rfl⟩, ⟨rfl, rfl⟩, hcannot⟩
  · have hkind : e.kindAt? project q = (e'.document? id').map (·.kind) := hkind
    have hsource : e'.isSource id' = true ↔ e.kindAt? project q = some .source := by
      rw [hkind]
      exact isSource_eq_true_iff
    rw [heq _ _ hresult]
    refine .inr ⟨id', hcurrent, hcan, hsource, ?_, fun h => hsame.mp ⟨h.project, h.documents⟩,
      fun h => ?_⟩
    · simp only [Except.map, hsource]
    · have h := hsame.mpr h
      exact ⟨h.project, h.documents⟩

/-- For every state of a project and every document: either the counterpart is answered and is the
current document, or there is no answer and nothing has changed, exactly if every counterpart that
is found is a source file, or is the current document already. It is answered exactly if it is a
source file. One that cannot be opened is a failure, and then nothing has changed either. -/
theorem openCounterpart_current_or_undisturbed_iff (hproject : e.project = some project)
    (id : DocumentId) :
    (e.AnswersCurrent id ∨ e.AnswersNothing id ↔ ∀ q, (e.counterpart id).2 = some q →
      e.kindAt? project q = some .source ∨ e.IsCurrentAt project q) ∧
    (e.AnswersCurrent id ↔
      ∃ q, (e.counterpart id).2 = some q ∧ e.kindAt? project q = some .source) ∧
    ((∃ failure, (e.openCounterpart id).2 = .error failure) ↔
      ∃ q, (e.counterpart id).2 = some q ∧ e.CannotOpen project q) ∧
    ∀ failure, (e.openCounterpart id).2 = .error failure →
      Undisturbed e (e.openCounterpart id).1 := by
  cases hfound : (e.counterpart id).2 with
  | none =>
    have hnothing := answersNothing_of_not_found hfound
    have hanswer := hnothing.1
    refine ⟨iff_of_true (.inr hnothing) (by simp), iff_of_false ?_ (by simp),
      iff_of_false (by simp [hanswer]) (by simp), by simp [hanswer]⟩
    rintro ⟨id', hid, -⟩
    simp [hanswer] at hid
  | some q =>
    simp only [Option.some.injEq, forall_eq', exists_eq_left']
    unfold AnswersCurrent AnswersNothing
    rcases openCounterpart_cases hproject hfound with
      ⟨⟨failure, hfailure⟩, hsame, hcannot⟩ | ⟨id', hcurrent, hcan, hsource, hanswer, hsame⟩
    · have hnot : ¬e.IsCurrentAt project q := by
        rintro ⟨id', hopen, -⟩
        rw [hcannot.2] at hopen
        contradiction
      simp [hfailure, hcannot, hcannot.1, hnot, hsame]
    · by_cases hkind : e.kindAt? project q = some .source
      · simp [hanswer, hkind, hcan, hsource, hcurrent]
      · simp [hanswer, hkind, hcan, hsame]

def pairTree (other : Text) : FileSystem :=
  ⟨[(["a.c".toList], .file [] {}), ([other], .file [] {})], ['/'], ['/']⟩

def pairProject : Project := ⟨['/'], .standard, [], none⟩

def pairEditor (other : Text) : Editor := ⟨pairTree other, [], .empty, some pairProject⟩

def pairOpened : Editor :=
  (((pairEditor "a.h".toList).openFile pairProject "a.c".toList).1.counterpart 0).1

def pairShown : Project := { pairProject with opened := [("/a.c".toList, 0)], current := some 0 }

def pairSource : Document :=
  { Document.new .source [] (some "/a.c".toList) with disk := some [] }

def pairCache : CounterpartCache :=
  ⟨[("/a.c".toList, "/a.h".toList), ("/a.h".toList, "/a.c".toList)]⟩

theorem resolve_pairTree (index : List Text → List Path) :
    Counterpart.resolve (pairTree "a.h".toList) .standard index .empty "/a.c".toList =
      (pairCache, some "/a.h".toList) := by
  have hsibling : Counterpart.sibling? (pairTree "a.h".toList) "/a.c".toList
      (Counterpart.candidates .standard "/a.c".toList) = some "/a.h".toList := by
    rw [Counterpart.candidates, Settings.oppositeSuffixes_standard]
    decide +kernel
  have hplace : Path.absolute (pairTree "a.h".toList).workDir "/a.c".toList = "/a.c".toList := by
    decide +kernel
  have hnone : (CounterpartCache.empty.get? "/a.c".toList).filter (!·.isEmpty) = none := by
    decide +kernel
  simp only [Counterpart.resolve, hplace, hnone, Counterpart.search?, hsibling]
  congr 1

theorem pairOpened_eq :
    pairOpened = ⟨pairTree "a.h".toList, [pairSource], pairCache, some pairShown⟩ :=
  congrArg (fun r : CounterpartCache × Option Path =>
    (⟨pairTree "a.h".toList, [pairSource], r.1, some pairShown⟩ : Editor)) (resolve_pairTree _)

theorem openCounterpart_current_header :
    pairOpened.project = some pairShown ∧
      (pairOpened.counterpart 0).2 = some "/a.h".toList ∧
      pairOpened.kindAt? pairShown "/a.h".toList = some .source ∧ pairOpened.AnswersCurrent 0 := by
  have hproject : pairOpened.project = some pairShown := by rw [pairOpened_eq]
  have hfound : (pairOpened.counterpart 0).2 = some "/a.h".toList := by
    rw [pairOpened_eq]
    decide +kernel
  have hkind : pairOpened.kindAt? pairShown "/a.h".toList = some .source := by
    rw [pairOpened_eq]
    decide +kernel
  exact ⟨hproject, hfound, hkind,
    (openCounterpart_current_or_undisturbed_iff hproject 0).2.1.mpr ⟨_, hfound, hkind⟩⟩

def pairRenamed : Editor :=
  ({ pairOpened with fs := pairTree "a.txt".toList }).fileRenamed "a.h".toList "a.txt".toList

/-- The renamed file is opened and takes the place of the current document, and there is no answer.
-/
theorem openCounterpart_renamed_to_text :
    pairRenamed.current? = some 0 ∧ (pairRenamed.openCounterpart 0).2 = .ok none ∧
      (pairRenamed.openCounterpart 0).1.current? = some 1 ∧
      ¬(pairRenamed.AnswersCurrent 0 ∨ pairRenamed.AnswersNothing 0) := by
  have hbefore : pairRenamed.current? = some 0 := by
    rw [pairRenamed, pairOpened_eq]
    decide +kernel
  have hanswer : (pairRenamed.openCounterpart 0).2 = .ok none := by
    rw [pairRenamed, pairOpened_eq]
    decide +kernel
  have hafter : (pairRenamed.openCounterpart 0).1.current? = some 1 := by
    rw [pairRenamed, pairOpened_eq]
    decide +kernel
  refine ⟨hbefore, hanswer, hafter, ?_⟩
  rintro (⟨id', hid, -⟩ | ⟨-, hsame⟩)
  · simp [hanswer] at hid
  · rw [current?, hsame.project, ← current?, hbefore] at hafter
    contradiction

end Editor

end SourceEdit
