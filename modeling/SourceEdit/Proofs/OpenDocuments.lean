import SourceEdit.Proofs.Confinement
import SourceEdit.Proofs.CursorBounds
import SourceEdit.Proofs.NoLostUpdate
import SourceEdit.Proofs.Runs

/-!
The open documents of a project. A path in the table, the name of the document it stands for and the
current document are kept apart, so they agree only as long as no document takes another name behind
the back of the table and no rename puts one in the place of the current one.
-/

set_option autoImplicit false

namespace SourceEdit

theorem Path.absolute_absolute {workDir : Path} (h : isAbsolute workDir = true) (p : Path) :
    absolute workDir (absolute workDir p) = absolute workDir p := by
  obtain ⟨q, hq, heq⟩ := absolute_eq_normalize h p
  rw [heq, absolute, if_pos (heq ▸ isAbsolute_absolute h p), normalize_normalize hq]

namespace Document

theorem sameFile_gotoBlock (direction : Direction) (count : Nat) (d : Document) :
    SameFile d (gotoBlock direction count d) := by
  induction count generalizing d with
  | zero => exact .refl d
  | succ count ih =>
    have hmoved : SameFile d
        (d.setPosition (Block.move d.text d.position direction) false) := ⟨rfl, rfl⟩
    rw [gotoBlock]
    split
    · exact hmoved
    · exact hmoved.trans (ih _)

theorem fileName_saveLocked {d : Document} {fs : FileSystem} {target : Path}
    (h : (d.saveLocked fs target).2.2 = none) :
    (d.saveLocked fs target).2.1.fileName = some target := by
  unfold saveLocked at h ⊢
  split
  · next hchanged =>
    rw [if_pos hchanged] at h
    contradiction
  · next hsame =>
    rw [if_neg hsame] at h
    split
    · next hreplace =>
      rw [hreplace] at h
      contradiction
    · rfl

theorem fileName_saveTo [FileLock] {d : Document} {fs : FileSystem} {target : Path}
    (h : (d.saveTo fs target).2.2 = none) : (d.saveTo fs target).2.1.fileName = some target := by
  unfold saveTo at h ⊢
  split at h
  · contradiction
  · exact fileName_saveLocked h

theorem fileName_save [FileLock] (d : Document) (fs : FileSystem) (p : Option Path) :
    (d.save fs p).2.1.fileName =
      if (d.save fs p).2.2 = none then d.target? fs p else d.fileName := by
  cases htarget : d.target? fs p with
  | none =>
    rw [save_unnamed htarget]
    rfl
  | some target =>
    rw [save_eq_saveTo htarget]
    split
    · next hsaved => exact fileName_saveTo hsaved
    · next hfailed => rw [saveTo_failed hfailed]

end Document

namespace Workspace

theorem fileName_load {d d' : Document} {fs : FileSystem} {p : Path} (h : d.load fs p = .ok d') :
    d'.fileName = some (Path.absolute fs.workDir p) := by
  unfold Document.load at h
  cases hread : fs.read (Path.absolute fs.workDir p) with
  | error => simp [hread, bind, Except.bind] at h
  | ok content =>
    simp only [hread, bind, Except.bind, Except.ok.injEq] at h
    rw [← h]

section
variable [FileLock]

/-- The name that an action gives to the document: that of the file it is loaded from or saved to. -/
def newName? (s : Workspace) : Action → Option Path
  | .load p => if (s.document.load s.fs p).isOk then some (Path.absolute s.fs.workDir p) else none
  | .save p => if (s.document.save s.fs p).2.2 = none then s.document.target? s.fs p else none
  | _ => none

theorem fileName_step (s : Workspace) (a : Action) :
    (s.step a).document.fileName = (s.newName? a).or s.document.fileName := by
  cases a with
  | act a => exact (Document.sameFile_act s.document a).fileName
  | openBlock => exact (Document.blockStep_openBlock s.document).sameFile.fileName
  | record e => exact (Document.blockStep_record s.document e).sameFile.fileName
  | requestCursor position anchor =>
    exact (Document.blockStep_requestCursor s.document position anchor).sameFile.fileName
  | closeBlock abandoned =>
    exact (Document.blockStep_closeBlock s.document abandoned).sameFile.fileName
  | load p =>
    rw [step, newName?]
    cases hload : s.document.load s.fs p with
    | ok d => exact fileName_load hload
    | error => rfl
  | save p =>
    show (s.document.save s.fs p).2.1.fileName = _
    rw [Document.fileName_save, newName?]
    split
    · cases htarget : s.document.target? s.fs p with
      | some => rfl
      | none =>
        unfold Document.target? at htarget
        split at htarget
        · contradiction
        · rw [htarget]
          rfl
    · rfl
  | outside entries => rfl
  | insertInclude t newGroup =>
    exact (s.document.editsOnce_insertInclude t newGroup).sameFile.fileName
  | removeInclude t => exact (s.document.editsOnce_removeInclude t).sameFile.fileName
  | insertForwardDeclaration t =>
    exact (s.document.editsOnce_insertForwardDeclaration t).sameFile.fileName
  | commentSelection => exact (Document.sameFile_commentSelection s.document).fileName
  | gotoBlock direction count =>
    exact (Document.sameFile_gotoBlock direction count s.document).fileName

theorem workDir_step (s : Workspace) (a : Action) : (s.step a).fs.workDir = s.fs.workDir := by
  cases a with
  | load p =>
    rw [step]
    split <;> rfl
  | save p =>
    show (s.document.save s.fs p).1.workDir = _
    cases htarget : s.document.target? s.fs p with
    | none => rw [Document.save_unnamed htarget]
    | some target =>
      rw [Document.save_eq_saveTo htarget]
      exact Document.workDir_saveTo s.document s.fs target
  | _ => rfl

end

end Workspace

namespace Project

variable {project : Project}

theorem documentAt?_register (project : Project) (p : Path) (id : Nat) (q : Path) :
    (project.register p id).documentAt? q = if p = q then some id else project.documentAt? q :=
  Table.get?_insert project.opened p q id

theorem documentAt?_unregister (project : Project) (p q : Path) :
    (project.unregister p).documentAt? q = if p = q then none else project.documentAt? q :=
  Table.get?_erase project.opened p q

theorem documentAt?_withCurrent (project : Project) (current : Option Nat) (q : Path) :
    ({ project with current := current }).documentAt? q = project.documentAt? q := rfl

theorem documentAt?_close (project : Project) (p q : Path) :
    (project.close p).documentAt? q = if p = q then none else project.documentAt? q := by
  unfold close
  split
  · next hclosed =>
    split
    · next hp => rw [← hp, hclosed]
    · rfl
  · dsimp only
    split <;> exact documentAt?_unregister project p q

theorem root_close (project : Project) (p : Path) : (project.close p).root = project.root := by
  unfold close
  split
  · rfl
  · dsimp only
    split <;> rfl

theorem current_close {p : Path} {id : Nat} (h : (project.close p).current = some id) :
    project.current = some id ∧ project.documentAt? p ≠ some id := by
  unfold close at h
  split at h
  · next hclosed => exact ⟨h, by simp [hclosed]⟩
  · next id' hopen =>
    dsimp only at h
    split at h
    · contradiction
    · next hother =>
      refine ⟨h, fun heq => hother ?_⟩
      obtain rfl := Option.some.inj (hopen.symm.trans heq)
      exact h

end Project

namespace Editor

inductive Event where
  | openFile (p : Path)
  | closeFile (p : Path)
  | fileCreated (p : Path)
  | fileRemoved (p : Path)
  | fileRenamed (old new : Path)
  | work (id : DocumentId) (a : Workspace.Action)

/-- Every open document has the name under which it is registered, and the current document is one of
them. -/
structure Registered (e : Editor) : Prop where
  named : ∀ project ∈ e.project, ∀ p id, project.documentAt? p = some id →
    (e.document? id).bind (·.fileName) = some p
  current : ∀ project ∈ e.project, ∀ id, project.current = some id →
    ∃ p, project.documentAt? p = some id

variable {e : Editor} {project : Project}

theorem fileName_ofFile {kind : DocumentKind} {fs : FileSystem} {p : Path} {d : Document}
    (h : Document.ofFile kind fs p = .ok d) : d.fileName = some (Path.absolute fs.workDir p) :=
  Workspace.fileName_load h

theorem root_fileRenamed (e : Editor) (old new : Path) :
    (e.fileRenamed old new).project.map (·.root) = e.project.map (·.root) := by
  unfold fileRenamed
  dsimp only
  split
  · rfl
  · split <;> exact Option.map_map ..

theorem document?_setDocument (e : Editor) (id : DocumentId) (d : Document) {d₀ : Document}
    (h : e.document? id = some d₀) (id' : DocumentId) :
    (e.setDocument id d).document? id' = if id = id' then some d else e.document? id' := by
  have hlt : id < e.documents.length := (List.getElem?_eq_some_iff.mp h).1
  unfold document? setDocument
  rw [List.getElem?_set, if_pos hlt]

theorem Registered.openFile (hworkDir : Path.isAbsolute e.fs.workDir = true) (h : e.Registered)
    (hproject : e.project = some project) (p : Path) : (e.openFile project p).1.Registered := by
  unfold Editor.openFile
  dsimp only
  split
  · next id hopen =>
    refine ⟨?_, ?_⟩
    · rintro _ ⟨⟩ q id' hq
      exact h.named project hproject q id' hq
    · rintro _ ⟨⟩ id' hid
      obtain rfl := Option.some.inj hid
      exact ⟨_, hopen⟩
  · split
    · exact h
    · next d hload =>
      have hname : d.fileName = some (project.pathOf e.fs p) := by
        rw [fileName_ofFile hload, Project.pathOf, Path.absolute_absolute hworkDir]
      refine ⟨?_, ?_⟩
      · rintro _ ⟨⟩ q id hq
        rw [Project.documentAt?_withCurrent, Project.documentAt?_register] at hq
        split at hq
        · next hp =>
          obtain rfl := Option.some.inj hq
          rw [← hp, ← hname, addDocument, document?, List.getElem?_concat_length]
          rfl
        · have hold := h.named project hproject q id hq
          obtain ⟨d', hd', -⟩ := Option.bind_eq_some_iff.mp hold
          have hlt : id < e.documents.length := (List.getElem?_eq_some_iff.mp hd').1
          rw [addDocument, document?, List.getElem?_append_left hlt]
          exact hold
      · rintro _ ⟨⟩ id hid
        obtain rfl := Option.some.inj hid
        refine ⟨project.pathOf e.fs p, ?_⟩
        rw [Project.documentAt?_withCurrent, Project.documentAt?_register, if_pos rfl]

theorem Registered.closeFile (h : e.Registered) (p : Path) : (e.closeFile p).Registered := by
  cases hproject : e.project with
  | none =>
    have hsame : e.closeFile p = e := by
      unfold Editor.closeFile
      rw [hproject, Option.map_none, ← hproject]
    rwa [hsame]
  | some project =>
    have hclose : (e.closeFile p).project = some (project.close (e.absolute p)) := by
      unfold Editor.closeFile
      rw [hproject, Option.map_some]
    refine ⟨fun project' hproject' q id hq => ?_, fun project' hproject' id hid => ?_⟩
    · obtain rfl := Option.some.inj (hclose.symm.trans hproject')
      rw [Project.documentAt?_close] at hq
      split at hq
      · contradiction
      · exact h.named project hproject q id hq
    · obtain rfl := Option.some.inj (hclose.symm.trans hproject')
      obtain ⟨hcurrent, hother⟩ := Project.current_close hid
      obtain ⟨q, hq⟩ := h.current project hproject id hcurrent
      refine ⟨q, ?_⟩
      rw [Project.documentAt?_close, if_neg, hq]
      rintro rfl
      exact hother hq

theorem registered_withCache (cache : CounterpartCache) :
    ({ e with cache := cache }).Registered ↔ e.Registered :=
  ⟨fun h => ⟨h.named, h.current⟩, fun h => ⟨h.named, h.current⟩⟩

theorem Registered.exists_document (h : e.Registered) (hproject : e.project = some project)
    {p : Path} {id : DocumentId} (hopen : project.documentAt? p = some id) :
    ∃ d, e.document? id = some d ∧ d.fileName = some p :=
  Option.bind_eq_some_iff.mp (h.named project hproject p id hopen)

theorem Registered.path_unique (h : e.Registered) (hproject : e.project = some project) {p q : Path}
    {id : DocumentId} (hp : project.documentAt? p = some id) (hq : project.documentAt? q = some id) :
    p = q :=
  Option.some.inj ((h.named project hproject p id hp).symm.trans (h.named project hproject q id hq))

theorem fileRenamed_closed {old new : Path}
    (h : e.project.bind (·.documentAt? (e.absolute old)) = none) :
    e.fileRenamed old new =
      { e with cache := e.cache.rename (e.absolute old) (e.absolute new) } := by
  unfold fileRenamed
  dsimp only
  rw [h]

theorem fileRenamed_open {old new : Path} {id : DocumentId} {d : Document}
    (hproject : e.project = some project)
    (hopen : project.documentAt? (e.absolute old) = some id) (hd : e.document? id = some d) :
    e.fileRenamed old new =
      { e.setDocument id { d with fileName := some (e.absolute new) } with
        cache := e.cache.rename (e.absolute old) (e.absolute new)
        project := some ((project.unregister (e.absolute old)).register (e.absolute new) id) } := by
  have hbind : e.project.bind (·.documentAt? (e.absolute old)) = some id := by
    rw [hproject]
    exact hopen
  have hdocument : ({ e with cache := e.cache.rename (e.absolute old) (e.absolute new) }).document?
      id = some d := hd
  unfold fileRenamed
  dsimp only
  rw [hbind]
  dsimp only
  rw [hdocument]
  simp only [setDocument, hproject, Option.map_some]

section
variable [FileLock]

def work (e : Editor) (id : DocumentId) (a : Workspace.Action) : Editor :=
  match e.document? id with
  | none => e
  | some d =>
    let s := Workspace.step ⟨e.fs, d⟩ a
    { e.setDocument id s.document with fs := s.fs }

def step (e : Editor) : Event → Editor
  | .openFile p =>
    match e.project with
    | none => e
    | some project => (e.openFile project p).1
  | .closeFile p => e.closeFile p
  | .fileCreated p => e.fileCreated p
  | .fileRemoved p => e.fileRemoved p
  | .fileRenamed old new => e.fileRenamed old new
  | .work id a => e.work id a

def run (e : Editor) (events : List Event) : Editor := events.foldl step e

/-- No open document takes another name, and no document comes by a rename to the place of the current
one. -/
def Fits (e : Editor) : Event → Prop
  | .fileRenamed old new => ∀ project ∈ e.project, ∀ id current,
      project.documentAt? (e.absolute old) = some id → project.current = some current →
      project.documentAt? (e.absolute new) = some current → current = id
  | .work id a => ∀ project ∈ e.project, ∀ p d q, project.documentAt? p = some id →
      e.document? id = some d → Workspace.newName? ⟨e.fs, d⟩ a = some q → q = p
  | _ => True

/-- Every event of a run fits the state in which it happens. -/
def FitsAll (e : Editor) : List Event → Prop
  | [] => True
  | event :: events => e.Fits event ∧ (e.step event).FitsAll events

theorem registered_fileRenamed_iff (h : e.Registered) (old new : Path) :
    (e.fileRenamed old new).Registered ↔ e.Fits (.fileRenamed old new) := by
  cases hopen : e.project.bind (·.documentAt? (e.absolute old)) with
  | none =>
    rw [fileRenamed_closed hopen, registered_withCache]
    refine iff_of_true h fun project hproject id current hid => ?_
    rw [hproject] at hopen
    rw [show project.documentAt? (e.absolute old) = none from hopen] at hid
    contradiction
  | some id =>
    obtain ⟨project, hproject, hid⟩ := Option.bind_eq_some_iff.mp hopen
    obtain ⟨d, hd, hname⟩ := h.exists_document hproject hid
    rw [fileRenamed_open hproject hid hd]
    have hat : ∀ q, ((project.unregister (e.absolute old)).register (e.absolute new) id).documentAt? q
        = if e.absolute new = q then some id
          else if e.absolute old = q then none else project.documentAt? q := fun q => by
      rw [Project.documentAt?_register, Project.documentAt?_unregister]
    constructor
    · intro hafter project' hproject' id' current hid' hcurrent hnew
      obtain rfl := Option.some.inj (hproject.symm.trans hproject')
      obtain rfl := Option.some.inj (hid.symm.trans hid')
      obtain ⟨q, hq⟩ := hafter.current _ rfl current hcurrent
      rw [hat] at hq
      split at hq
      · exact (Option.some.inj hq).symm
      · split at hq
        · contradiction
        · next hother _ => exact absurd (h.path_unique hproject hnew hq) hother
    · intro hfits
      refine ⟨?_, ?_⟩
      · rintro _ ⟨⟩ q id' hq
        rw [hat] at hq
        show ((e.setDocument id _).document? id').bind _ = _
        rw [document?_setDocument e id _ hd]
        split at hq
        · next hnew =>
          rw [if_pos (Option.some.inj hq), ← hnew]
          rfl
        · split at hq
          · contradiction
          · next hold =>
            have hne : id ≠ id' := by
              rintro rfl
              exact hold (h.path_unique hproject hid hq)
            rw [if_neg hne]
            exact h.named project hproject q id' hq
      · rintro _ ⟨⟩ current hcurrent
        obtain ⟨q, hq⟩ := h.current project hproject current hcurrent
        by_cases hid' : current = id
        · exact ⟨e.absolute new, by rw [hat, if_pos rfl, hid']⟩
        · refine ⟨q, ?_⟩
          have hnew : e.absolute new ≠ q := by
            rintro rfl
            exact hid' (hfits project hproject id current hid hcurrent hq)
          have hold : e.absolute old ≠ q := by
            rintro rfl
            exact hid' (Option.some.inj (hq.symm.trans hid))
          rw [hat, if_neg hnew, if_neg hold, hq]

theorem registered_work_iff (h : e.Registered) (id : DocumentId) (a : Workspace.Action) :
    (e.work id a).Registered ↔ e.Fits (.work id a) := by
  unfold work
  cases hd : e.document? id with
  | none => exact iff_of_true h fun _ _ _ d _ _ hd' => by rw [hd] at hd'; contradiction
  | some d =>
    dsimp only
    have hname := Workspace.fileName_step ⟨e.fs, d⟩ a
    generalize Workspace.step ⟨e.fs, d⟩ a = s at hname ⊢
    constructor
    · intro hafter project hproject p d' q hp hd' hq
      obtain rfl := Option.some.inj (hd.symm.trans hd')
      have hnamed := hafter.named project hproject p id hp
      have hset : ({ e.setDocument id s.document with fs := s.fs } : Editor).document? id =
          some s.document := (document?_setDocument e id _ hd id).trans (if_pos rfl)
      rw [hset, Option.bind_some, hname, hq] at hnamed
      exact Option.some.inj hnamed
    · intro hfits
      refine ⟨fun project hproject p id' hp => ?_, h.current⟩
      have hold := h.named project hproject p id' hp
      show ((e.setDocument id _).document? id').bind _ = _
      rw [document?_setDocument e id _ hd]
      split
      · next hid =>
        subst hid
        rw [Option.bind_some, hname]
        cases hq : Workspace.newName? ⟨e.fs, d⟩ a with
        | none => rwa [hd, Option.bind_some] at hold
        | some q => rw [hfits project hproject p d q hp hd hq, Option.some_or]
      · exact hold

theorem workDir_step (e : Editor) (event : Event) :
    (e.step event).fs.workDir = e.fs.workDir := by
  cases event with
  | openFile p =>
    rw [step]
    split
    · rfl
    · unfold Editor.openFile
      dsimp only
      split
      · rfl
      · split <;> rfl
  | closeFile p | fileCreated p | fileRemoved p => rfl
  | fileRenamed old new =>
    rw [step]
    unfold fileRenamed
    dsimp only
    split
    · rfl
    · split <;> rfl
  | work id a =>
    rw [step, work]
    split
    · rfl
    · exact Workspace.workDir_step _ a

theorem registered_step_iff (hworkDir : Path.isAbsolute e.fs.workDir = true) (h : e.Registered)
    (event : Event) : (e.step event).Registered ↔ e.Fits event := by
  cases event with
  | openFile p =>
    refine iff_of_true ?_ trivial
    rw [step]
    split
    · exact h
    · next project hproject => exact h.openFile hworkDir hproject p
  | closeFile p => exact iff_of_true (h.closeFile p) trivial
  | fileCreated p => exact iff_of_true ((registered_withCache _).mpr h) trivial
  | fileRemoved p =>
    exact iff_of_true (((registered_withCache _).mpr h).closeFile p) trivial
  | fileRenamed old new => exact registered_fileRenamed_iff h old new
  | work id a => exact registered_work_iff h id a

theorem registered_states_iff (hworkDir : Path.isAbsolute e.fs.workDir = true) (h : e.Registered)
    (events : List Event) :
    (∀ done, done <+: events → (e.run done).Registered) ↔ e.FitsAll events :=
  forall_states_iff step (fun s => Path.isAbsolute s.fs.workDir = true) Registered Fits FitsAll
    (fun _ => trivial) (fun _ _ _ => Iff.rfl) (fun s event _ hs => by rwa [workDir_step])
    (fun _ event _ hs hregistered => registered_step_iff hs hregistered event) hworkDir h

/-- For every new project and every run of openings, closings, reports about files and work on its
documents: in each state every open document is registered under its own name and the current
document is open, exactly as long as every event fits the state in which it happens. -/
theorem states_registered_iff_fits {fs : FileSystem} {root : Path} {settings : Settings}
    (hworkDir : Path.isAbsolute fs.workDir = true)
    (hnew : Project.new fs root settings = .ok project) (documents : List Document)
    (cache : CounterpartCache) (events : List Event) :
    let e : Editor := ⟨fs, documents, cache, some project⟩
    (∀ done, done <+: events → (e.run done).Registered) ↔ e.FitsAll events := by
  intro e
  unfold Project.new at hnew
  split at hnew
  · obtain rfl := Except.ok.inj hnew
    refine registered_states_iff hworkDir ⟨?_, ?_⟩ events
    · rintro _ ⟨⟩ p id hp
      contradiction
    · rintro _ ⟨⟩ id hid
      contradiction
  · contradiction

end

def sampleTree : FileSystem :=
  ⟨[([['a']], .file [0x31] {}), ([['b']], .file [0x32] {})], ['/'], ['/']⟩

def sampleProject : Project := ⟨['/'], .standard, [], none⟩

def sampleEditor : Editor := ⟨sampleTree, [], .empty, some sampleProject⟩

def sampleEvents : List Event :=
  [.openFile ['a'], .openFile ['b'], .work 1 (.act (.block [.insertion 0 ['x']] none)),
    .work 1 (.save (some ['b'])), .fileRenamed ['a'] ['c']]

theorem opened_of_map {project : Project} (hproject : e.project = some project)
    {opened : Table Path Nat} (h : e.project.map (·.opened) = some opened) :
    project.opened = opened := by
  rw [hproject] at h
  exact Option.some.inj h

theorem sample_states_registered :
    Path.isAbsolute sampleTree.workDir = true ∧
      Project.new sampleTree ['/'] .standard = .ok sampleProject ∧
      ∀ done, done <+: sampleEvents → (sampleEditor.run done).Registered := by
  have hnew : Project.new sampleTree ['/'] .standard = .ok sampleProject := by rfl
  refine ⟨rfl, hnew, (states_registered_iff_fits rfl hnew [] .empty sampleEvents).mpr ?_⟩
  have hsave : (sampleEditor.run (sampleEvents.take 3)).Fits (.work 1 (.save (some ['b']))) := by
    intro project hproject p d q hp hd hq
    have hopened : project.opened = [(['/', 'a'], 0), (['/', 'b'], 1)] :=
      opened_of_map hproject (by decide +kernel)
    have hsaved : ((sampleEditor.run (sampleEvents.take 3)).document? 1).bind
        (fun d => Workspace.newName? ⟨(sampleEditor.run (sampleEvents.take 3)).fs, d⟩
          (.save (some ['b']))) = some ['/', 'b'] := by decide +kernel
    rw [hd, Option.bind_some, hq] at hsaved
    have hmem := Table.mem_of_get? hp
    rw [hopened] at hmem
    simpa [Option.some.inj hsaved, eq_comm] using hmem
  have hrename : (sampleEditor.run (sampleEvents.take 4)).Fits (.fileRenamed ['a'] ['c']) := by
    intro project hproject id current hid hcurrent hopen
    have hopened : project.opened = [(['/', 'a'], 0), (['/', 'b'], 1)] :=
      opened_of_map hproject (by decide +kernel)
    have hnew : (sampleEditor.run (sampleEvents.take 4)).absolute ['c'] = ['/', 'c'] := by
      decide +kernel
    have hmem := Table.mem_of_get? hopen
    rw [hopened, hnew] at hmem
    simp at hmem
  exact ⟨trivial, trivial, by simp [Fits, Workspace.newName?], hsave, hrename, trivial⟩

/-- A document that is saved to another path stays registered under the old one. A document that a
rename brings to the path of the current one takes its place in the table, but not as the current
one. -/
theorem not_registered_saved_elsewhere :
    ¬(sampleEditor.run [.openFile ['a'], .work 0 (.save (some ['c']))]).Registered ∧
      ¬(sampleEditor.run [.openFile ['a'], .openFile ['b'],
        .fileRenamed ['a'] ['b']]).Registered := by
  constructor
  · intro h
    have hname : ((sampleEditor.run [.openFile ['a'], .work 0 (.save (some ['c']))]).document?
        0).bind (·.fileName) = some ['/', 'c'] := by decide +kernel
    obtain ⟨project, hproject, hopen⟩ := Option.bind_eq_some_iff.mp (show
      (sampleEditor.run [.openFile ['a'], .work 0 (.save (some ['c']))]).project.bind
        (·.documentAt? ['/', 'a']) = some 0 by decide +kernel)
    have hnamed := h.named project hproject ['/', 'a'] 0 hopen
    rw [hname] at hnamed
    exact absurd hnamed (by decide)
  · intro h
    obtain ⟨project, hproject, hcurrent⟩ := Option.bind_eq_some_iff.mp (show
      (sampleEditor.run [.openFile ['a'], .openFile ['b'], .fileRenamed ['a'] ['b']]).project.bind
        (·.current) = some 1 by decide +kernel)
    have hopened : project.opened = [(['/', 'b'], 0)] :=
      opened_of_map hproject (by decide +kernel)
    obtain ⟨p, hopen⟩ := h.current project hproject 1 hcurrent
    have hmem := Table.mem_of_get? hopen
    rw [hopened] at hmem
    simp at hmem

end Editor

end SourceEdit
