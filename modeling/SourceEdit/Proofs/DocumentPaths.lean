import SourceEdit.Proofs.OpenDocuments
import SourceEdit.Proofs.RelativePaths

set_option autoImplicit false

namespace SourceEdit

namespace Editor

variable {e : Editor} {project : Project} {id : DocumentId} {p q : Path}

/-- The project has registered the document under this path and no other. -/
def OpenAt (e : Editor) (id : DocumentId) (p : Path) : Prop :=
  ∃ project ∈ e.project, ∀ q, project.documentAt? q = some id ↔ q = p

def IsOpen (e : Editor) (id : DocumentId) : Prop :=
  ∃ project ∈ e.project, ∃ p, project.documentAt? p = some id

/-- A document is registered once, and only documents that there are, so that a new one is not among
them. -/
structure OpenedOnce (e : Editor) : Prop where
  known : ∀ project ∈ e.project, ∀ p id, project.documentAt? p = some id → id < e.documents.length
  once : ∀ project ∈ e.project, ∀ p q id, project.documentAt? p = some id →
    project.documentAt? q = some id → p = q

theorem OpenedOnce.openAt (h : e.OpenedOnce) (hproject : e.project = some project)
    (hopen : project.documentAt? p = some id) : e.OpenAt id p :=
  ⟨project, hproject, fun q => ⟨fun hq => h.once project hproject q p id hq hopen,
    fun hq => hq ▸ hopen⟩⟩

theorem OpenedOnce.of_fewer {e' : Editor} (h : e.OpenedOnce)
    (hdocuments : e.documents.length ≤ e'.documents.length)
    (hfewer : ∀ project' ∈ e'.project, ∃ project ∈ e.project, ∀ p id,
      project'.documentAt? p = some id → project.documentAt? p = some id) : e'.OpenedOnce := by
  refine ⟨fun project' hproject' p id hp => ?_, fun project' hproject' p q id hp hq => ?_⟩
  · obtain ⟨project, hproject, hsub⟩ := hfewer project' hproject'
    exact (h.known project hproject p id (hsub p id hp)).trans_le hdocuments
  · obtain ⟨project, hproject, hsub⟩ := hfewer project' hproject'
    exact h.once project hproject p q id (hsub p id hp) (hsub q id hq)

theorem OpenedOnce.openFile (h : e.OpenedOnce) (hproject : e.project = some project) (p : Path) :
    (e.openFile project p).1.OpenedOnce := by
  unfold Editor.openFile
  dsimp only
  split
  · refine h.of_fewer (Nat.le_refl _) ?_
    rintro _ ⟨⟩
    exact ⟨project, hproject, fun _ _ => id⟩
  · split
    · exact h
    · refine ⟨?_, ?_⟩
      · rintro _ ⟨⟩ q id hq
        rw [Project.documentAt?_withCurrent, Project.documentAt?_register] at hq
        rw [addDocument, List.length_append, List.length_singleton]
        split at hq
        · rw [← Option.some.inj hq]
          exact Nat.lt_succ_self _
        · exact (h.known project hproject q id hq).trans (Nat.lt_succ_self _)
      · rintro _ ⟨⟩ q r id hq hr
        rw [Project.documentAt?_withCurrent, Project.documentAt?_register] at hq hr
        have hnew : ∀ q, project.documentAt? q ≠ some e.documents.length := fun q hq =>
          Nat.lt_irrefl _ (h.known project hproject q _ hq)
        split at hq <;> split at hr
        · next hq' hr' => rw [← hq', ← hr']
        · exact absurd (hr.trans hq.symm) (hnew r)
        · exact absurd (hq.trans hr.symm) (hnew q)
        · exact h.once project hproject q r id hq hr

theorem OpenedOnce.closeFile (h : e.OpenedOnce) (p : Path) : (e.closeFile p).OpenedOnce := by
  refine h.of_fewer (Nat.le_refl _) fun project' hproject' => ?_
  obtain ⟨project, hproject, rfl⟩ := Option.map_eq_some_iff.mp hproject'
  refine ⟨project, hproject, fun q id hq => ?_⟩
  rw [Project.documentAt?_close] at hq
  split at hq
  · contradiction
  · exact hq

theorem openedOnce_withCache (cache : CounterpartCache) :
    ({ e with cache := cache }).OpenedOnce ↔ e.OpenedOnce :=
  ⟨fun h => ⟨h.known, h.once⟩, fun h => ⟨h.known, h.once⟩⟩

theorem OpenedOnce.exists_document (h : e.OpenedOnce) (hproject : e.project = some project)
    (hopen : project.documentAt? p = some id) : ∃ d, e.document? id = some d :=
  ⟨_, List.getElem?_eq_getElem (h.known project hproject p id hopen)⟩

theorem OpenedOnce.fileRenamed (h : e.OpenedOnce) (old new : Path) :
    (e.fileRenamed old new).OpenedOnce := by
  cases hopen : e.project.bind (·.documentAt? (e.absolute old)) with
  | none =>
    rw [fileRenamed_closed hopen]
    exact (openedOnce_withCache _).mpr h
  | some id =>
    obtain ⟨project, hproject, hid⟩ := Option.bind_eq_some_iff.mp hopen
    obtain ⟨d, hd⟩ := h.exists_document hproject hid
    rw [fileRenamed_open hproject hid hd]
    have hat : ∀ r id', ((project.unregister (e.absolute old)).register (e.absolute new)
        id).documentAt? r = some id' → id' = id ∧ e.absolute new = r ∨
          id' ≠ id ∧ project.documentAt? r = some id' := by
      intro r id' hr
      rw [Project.documentAt?_register, Project.documentAt?_unregister] at hr
      split at hr
      · next hnew => exact .inl ⟨(Option.some.inj hr).symm, hnew⟩
      · split at hr
        · contradiction
        · next hold =>
          refine .inr ⟨?_, hr⟩
          rintro rfl
          exact hold (h.once project hproject _ r _ hid hr)
    refine ⟨?_, ?_⟩
    · rintro _ ⟨⟩ r id' hr
      show id' < (e.documents.set id _).length
      rw [List.length_set]
      rcases hat r id' hr with ⟨rfl, -⟩ | ⟨-, hr⟩
      · exact h.known project hproject _ _ hid
      · exact h.known project hproject r id' hr
    · rintro _ ⟨⟩ r r' id' hr hr'
      rcases hat r id' hr with ⟨rfl, hnew⟩ | ⟨hne, hr⟩ <;>
        rcases hat r' _ hr' with ⟨heq, hnew'⟩ | ⟨hne', hr'⟩
      · rw [← hnew, hnew']
      · exact absurd rfl hne'
      · exact absurd heq hne
      · exact h.once project hproject r r' id' hr hr'

theorem OpenedOnce.work [FileLock] (h : e.OpenedOnce) (id : DocumentId) (a : Workspace.Action) :
    (e.work id a).OpenedOnce := by
  unfold Editor.work
  split
  · exact h
  · refine h.of_fewer ?_ fun project hproject => ⟨project, hproject, fun _ _ hq => hq⟩
    exact Nat.le_of_eq List.length_set.symm

theorem OpenedOnce.step [FileLock] (h : e.OpenedOnce) (event : Event) :
    (e.step event).OpenedOnce := by
  cases event with
  | openFile p =>
    rw [Editor.step]
    split
    · exact h
    · next project hproject => exact h.openFile hproject p
  | closeFile p => exact h.closeFile p
  | fileCreated p => exact (openedOnce_withCache _).mpr h
  | fileRemoved p => exact ((openedOnce_withCache _).mpr h).closeFile p
  | fileRenamed old new => exact h.fileRenamed old new
  | work id a => exact h.work id a

theorem root_openFile (hproject : e.project = some project) (p : Path) :
    (e.openFile project p).1.project.map (·.root) = some project.root := by
  unfold Editor.openFile
  dsimp only
  split
  · rfl
  · split
    · rw [hproject]
      rfl
    · rfl

theorem root_step [FileLock] (e : Editor) (event : Event) :
    (e.step event).project.map (·.root) = e.project.map (·.root) := by
  cases event with
  | openFile p =>
    rw [step]
    split
    · rfl
    · next project hproject => rw [root_openFile hproject, hproject, Option.map_some]
  | closeFile p | fileRemoved p =>
    refine (Option.map_map ..).trans (congrArg (e.project.map ·) ?_)
    exact funext fun project => Project.root_close project _
  | fileCreated p => rfl
  | fileRenamed old new => exact root_fileRenamed e old new
  | work id a =>
    rw [step, work]
    split <;> rfl

/-- What holds from the beginning of a project on. -/
structure Underway (e : Editor) (workDir root : Path) : Prop extends OpenedOnce e where
  workDir : e.fs.workDir = workDir
  root : ∀ project ∈ e.project, project.root = root

theorem Underway.step [FileLock] {workDir root : Path} (h : e.Underway workDir root)
    (event : Event) :
    (e.step event).Underway workDir root where
  toOpenedOnce := h.toOpenedOnce.step event
  workDir := (workDir_step e event).trans h.workDir
  root project' hproject' := by
    have hroot := root_step e event
    rw [hproject'] at hroot
    obtain ⟨project, hproject, hsame⟩ := Option.map_eq_some_iff.mp hroot.symm
    exact hsame.symm.trans (h.root project hproject)

theorem Underway.run [FileLock] {workDir root : Path} (h : e.Underway workDir root)
    (events : List Event) :
    (e.run events).Underway workDir root := by
  induction events generalizing e with
  | nil => exact h
  | cons event events ih => exact ih (h.step event)

theorem underway_new {fs : FileSystem} {root : Path} {settings : Settings}
    (hworkDir : Path.isAbsolute fs.workDir = true)
    (hnew : Project.new fs root settings = .ok project) (documents : List Document)
    (cache : CounterpartCache) : Path.isAbsolute project.root = true ∧
      Underway ⟨fs, documents, cache, some project⟩ fs.workDir project.root := by
  obtain rfl := Project.eq_of_new hnew
  refine ⟨Path.isAbsolute_absolute hworkDir root, ⟨?_, ?_⟩, rfl, ?_⟩
  · rintro _ ⟨⟩ p id hp
    contradiction
  · rintro _ ⟨⟩ p q id hp
    contradiction
  · rintro _ ⟨⟩
    rfl

theorem openAt_of_openFile {e' : Editor} (h : e.OpenedOnce) (hproject : e.project = some project)
    (hopened : e.openFile project p = (e', .ok id)) : e'.OpenAt id (project.pathOf e.fs p) := by
  have hafter : e'.OpenedOnce := by
    have hstep := h.openFile hproject p
    rwa [hopened] at hstep
  unfold Editor.openFile at hopened
  dsimp only at hopened
  split at hopened
  · next id' hfound =>
    obtain ⟨rfl, hid⟩ := Prod.mk.inj hopened
    obtain rfl := Except.ok.inj hid
    exact hafter.openAt rfl hfound
  · split at hopened
    · exact absurd (Prod.mk.inj hopened).2 (by simp)
    · obtain ⟨rfl, hid⟩ := Prod.mk.inj hopened
      obtain rfl := Except.ok.inj hid
      refine hafter.openAt rfl ?_
      rw [Project.documentAt?_withCurrent, Project.documentAt?_register, if_pos rfl]

theorem OpenAt.closed (h : e.OpenAt id q) (hp : e.absolute p = q) : ¬(e.closeFile p).IsOpen id := by
  obtain ⟨project, hproject, hall⟩ := h
  rintro ⟨closed, hclosed, r, hr⟩
  obtain ⟨project', hproject', rfl⟩ := Option.map_eq_some_iff.mp hclosed
  obtain rfl := Option.some.inj (hproject.symm.trans hproject')
  rw [Project.documentAt?_close] at hr
  split at hr
  · contradiction
  · next hother => exact hother (hp.trans ((hall r).mp hr).symm)

theorem OpenAt.closed_elsewhere (h : e.OpenAt id q) (hp : e.absolute p ≠ q) :
    (e.closeFile p).OpenAt id q := by
  obtain ⟨project, hproject, hall⟩ := h
  refine ⟨project.close (e.absolute p), Option.map_eq_some_iff.mpr ⟨project, hproject, rfl⟩,
    fun r => ?_⟩
  rw [Project.documentAt?_close]
  split
  · next hr => exact iff_of_false (by simp) (fun hrq => hp (hr.trans hrq))
  · exact hall r

theorem OpenAt.renamed (h : e.OpenAt id q) (honce : e.OpenedOnce) (hp : e.absolute p = q)
    (new : Path) : (e.fileRenamed p new).OpenAt id (e.absolute new) ∧
      ((e.fileRenamed p new).document? id).bind (·.fileName) = some (e.absolute new) := by
  obtain ⟨project, hproject, hall⟩ := h
  have hopen : project.documentAt? (e.absolute p) = some id := (hall _).mpr hp
  obtain ⟨d, hd⟩ := honce.exists_document hproject hopen
  rw [fileRenamed_open hproject hopen hd]
  refine ⟨⟨_, rfl, fun r => ?_⟩, ?_⟩
  · rw [Project.documentAt?_register, Project.documentAt?_unregister]
    split
    · next hr => exact iff_of_true rfl hr.symm
    · next hr =>
      refine iff_of_false ?_ (Ne.symm hr)
      split
      · simp
      · next hold => exact fun hr => hold (hp.trans ((hall r).mp hr).symm)
  · show ((e.setDocument id _).document? id).bind _ = _
    rw [document?_setDocument e id _ hd, if_pos rfl]
    rfl

theorem OpenAt.renamed_elsewhere (h : e.OpenAt id q) (honce : e.OpenedOnce)
    (hp : e.absolute p ≠ q) {new : Path} (hnew : e.absolute new ≠ q) :
    (e.fileRenamed p new).OpenAt id q := by
  obtain ⟨project, hproject, hall⟩ := h
  cases hother : project.documentAt? (e.absolute p) with
  | none =>
    have hclosed : e.project.bind (·.documentAt? (e.absolute p)) = none := by
      rw [hproject]
      exact hother
    rw [fileRenamed_closed hclosed]
    exact ⟨project, hproject, hall⟩
  | some other =>
    obtain ⟨d, hd⟩ := honce.exists_document hproject hother
    have hne : other ≠ id := by
      rintro rfl
      exact hp ((hall _).mp hother)
    rw [fileRenamed_open hproject hother hd]
    refine ⟨_, rfl, fun r => ?_⟩
    rw [Project.documentAt?_register, Project.documentAt?_unregister]
    split
    · next hr => exact iff_of_false (by simpa using hne) fun hrq => hnew (hr.trans hrq)
    · split
      · next hr => exact iff_of_false (by simp) fun hrq => hp (hr.trans hrq)
      · exact hall r

/-- For every new project and every run of openings, closings, reports about files and work on its
documents: a file that is opened then is open under one path. Closing it by the path it was opened
by, or reporting it removed or renamed, does what it should just if this path leads to the same
place from the root of the project and from the working directory; else the document stays where it
is. -/
theorem reached_by_opening_path [FileLock] {fs : FileSystem} {root : Path} {settings : Settings}
    (hworkDir : Path.isAbsolute fs.workDir = true)
    (hnew : Project.new fs root settings = .ok project) (documents : List Document)
    (cache : CounterpartCache) (events : List Event) {now : Project} {e' : Editor}
    (hnow : (run ⟨fs, documents, cache, some project⟩ events).project = some now)
    (hopened : (run ⟨fs, documents, cache, some project⟩ events).openFile now p = (e', .ok id)) :
    let path := Path.absolute fs.workDir (Path.join project.root p)
    e'.OpenAt id path ∧
      (Path.SameFrom p project.root fs.workDir →
        ¬(e'.closeFile p).IsOpen id ∧ ¬(e'.fileRemoved p).IsOpen id ∧
          ∀ new, (e'.fileRenamed p new).OpenAt id (Path.absolute fs.workDir new) ∧
            ((e'.fileRenamed p new).document? id).bind (·.fileName) =
              some (Path.absolute fs.workDir new)) ∧
      (¬Path.SameFrom p project.root fs.workDir →
        (e'.closeFile p).OpenAt id path ∧ (e'.fileRemoved p).OpenAt id path ∧
          ∀ new, Path.absolute fs.workDir new ≠ path → (e'.fileRenamed p new).OpenAt id path) := by
  intro path
  obtain ⟨hroot, hstart⟩ := underway_new hworkDir hnew documents cache
  have hbefore := hstart.run events
  have hstep := hbefore.step (.openFile p)
  have hafter : e'.Underway fs.workDir project.root := by
    rw [step, hnow] at hstep
    dsimp only at hstep
    rwa [hopened] at hstep
  have hopen : e'.OpenAt id path := by
    have h := openAt_of_openFile hbefore.toOpenedOnce hnow hopened
    rwa [Project.pathOf, hbefore.workDir, hbefore.root now hnow] at h
  have hsame : e'.absolute p = path ↔ Path.SameFrom p project.root fs.workDir := by
    rw [absolute, hafter.workDir]
    exact Path.absolute_join_eq_iff hworkDir hroot p
  have hplace : ∀ new, e'.absolute new = Path.absolute fs.workDir new := fun new => by
    rw [absolute, hafter.workDir]
  have hopenCache : ∀ cache, ({ e' with cache := cache }).OpenAt id path := fun _ => hopen
  refine ⟨hopen, fun h => ?_, fun h => ?_⟩
  · rw [← hsame] at h
    exact ⟨hopen.closed h, (hopenCache _).closed h, fun new =>
      hplace new ▸ hopen.renamed hafter.toOpenedOnce h new⟩
  · rw [← hsame] at h
    exact ⟨hopen.closed_elsewhere h, (hopenCache _).closed_elsewhere h, fun new hnew =>
      hopen.renamed_elsewhere hafter.toOpenedOnce h (hplace new ▸ hnew)⟩

def nestedTree : FileSystem :=
  ⟨[([['s']], .directory), ([['s'], ['a']], .file [0x31] {})], ['/'], ['/']⟩

def nestedProject : Project := ⟨['/', 's'], .standard, [], none⟩

def nestedEditor : Editor := ⟨nestedTree, [], .empty, some nestedProject⟩

def nestedOpened (p : Path) : Editor := (nestedEditor.openFile nestedProject p).1

theorem openFile_nested {p : Path} {id : DocumentId}
    (h : (nestedEditor.openFile nestedProject p).2 = .ok id) :
    nestedEditor.openFile nestedProject p = (nestedOpened p, .ok id) := by
  rw [nestedOpened, ← h]

theorem reached_by_opening_path_upward :
    let p := ['.', '.', '/', 's', '/', 'a']
    Path.isAbsolute nestedTree.workDir = true ∧
      Project.new nestedTree ['/', 's'] .standard = .ok nestedProject ∧
      nestedEditor.openFile nestedProject p = (nestedOpened p, .ok 0) ∧
      Path.SameFrom p nestedProject.root nestedTree.workDir ∧
      ¬((nestedOpened p).closeFile p).IsOpen 0 ∧ ¬((nestedOpened p).fileRemoved p).IsOpen 0 ∧
      ((nestedOpened p).fileRenamed p ['b']).OpenAt 0 ['/', 'b'] := by
  intro p
  have hnew : Project.new nestedTree ['/', 's'] .standard = .ok nestedProject := by rfl
  have hopened : nestedEditor.openFile nestedProject p = (nestedOpened p, .ok 0) :=
    openFile_nested (by decide +kernel)
  have hsame : Path.SameFrom p nestedProject.root nestedTree.workDir := by decide +kernel
  have hplace : Path.absolute nestedTree.workDir ['b'] = ['/', 'b'] := by decide +kernel
  obtain ⟨-, hreached, -⟩ := reached_by_opening_path rfl hnew [] .empty [] rfl hopened
  obtain ⟨hclosed, hremoved, hrenamed⟩ := hreached hsame
  exact ⟨rfl, hnew, hopened, hsame, hclosed, hremoved, hplace ▸ (hrenamed ['b']).1⟩

theorem isOpen_of_map {opened : Table Path DocumentId}
    (hmap : e.project.map (·.opened) = some opened) (hopen : opened.get? p = some id) :
    e.IsOpen id := by
  obtain ⟨project, hproject, rfl⟩ := Option.map_eq_some_iff.mp hmap
  exact ⟨project, hproject, p, hopen⟩

theorem opening_path_leads_elsewhere :
    Project.new nestedTree ['/', 's'] .standard = .ok nestedProject ∧
      nestedEditor.openFile nestedProject ['a'] = (nestedOpened ['a'], .ok 0) ∧
      ((nestedOpened ['a']).closeFile ['a']).IsOpen 0 ∧
      ((nestedOpened ['a']).fileRemoved ['a']).IsOpen 0 ∧
      ¬((nestedOpened ['a']).fileRenamed ['a'] ['b']).OpenAt 0 ['/', 'b'] := by
  have hclosed : ((nestedOpened ['a']).closeFile ['a']).project.map (·.opened) =
      some [(['/', 's', '/', 'a'], 0)] := by decide +kernel
  have hrenamed : ((nestedOpened ['a']).fileRenamed ['a'] ['b']).project.map (·.opened) =
      some [(['/', 's', '/', 'a'], 0)] := by decide +kernel
  have hopen : ((nestedOpened ['a']).closeFile ['a']).IsOpen 0 :=
    isOpen_of_map (p := ['/', 's', '/', 'a']) hclosed rfl
  refine ⟨rfl, openFile_nested (by decide +kernel), hopen, hopen, ?_⟩
  rintro ⟨project, hproject, hall⟩
  have hat := (hall ['/', 'b']).mpr rfl
  rw [Project.documentAt?, opened_of_map hproject hrenamed] at hat
  exact absurd hat (by decide)

end Editor

end SourceEdit
