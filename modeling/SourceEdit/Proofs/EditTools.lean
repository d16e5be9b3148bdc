import SourceEdit.Proofs.EditedText
import SourceEdit.Proofs.SaveInPlace

/-!
The tools that edit, and what their answers promise. A call fails only in ways that are reported; a
dry run writes nothing; an answer that tells of an error or of no change leaves every file as it was;
and one that tells of an edit has written the edited text to this one file, and is the same as the
answer of the dry run.
-/

set_option autoImplicit false

namespace SourceEdit

open FileSystem (lockPath)

/-- The failures that the tools report as errors. The others would end a call without an answer. -/
def Failure.IsReported : Failure → Prop
  | .raised _ | .pattern _ | .noGroups => False
  | _ => True

namespace Answer

/-- The text of the answer begins like this. -/
def Begins (answer : Answer) (opening : String) : Prop := opening.toList <+: answer.render

instance (answer : Answer) (opening : String) : Decidable (answer.Begins opening) :=
  inferInstanceAs (Decidable (opening.toList <+: answer.render))

theorem Begins.head_eq {answer : Answer} {opening : String} (h : answer.Begins opening) {a b : Char}
    (ha : opening.toList.head? = some a) (hb : answer.render.head? = some b) : a = b := by
  obtain ⟨rest, hrest⟩ := h
  rw [← hrest, List.head?_append, ha] at hb
  exact Option.some.inj hb

variable {answer : Answer}

theorem begins_of_errorText {message : Text} (h : answer.render = errorText message) :
    answer.Begins "Error" := ⟨[':', ' '] ++ message, h.symm⟩

theorem not_begins_of_errorText {message : Text} (h : answer.render = errorText message) :
    ¬answer.Begins "No change" ∧ ¬answer.Begins "Successfully edited" := by
  have hfirst : answer.render.head? = some 'E' := h ▸ rfl
  exact ⟨fun hbegins => absurd (hbegins.head_eq rfl hfirst) (by decide),
    fun hbegins => absurd (hbegins.head_eq rfl hfirst) (by decide)⟩

end Answer

namespace Document

theorem isReported_save [FileLock] {d : Document} {fs : FileSystem} {q : Option Path} {failure : Failure}
    (h : (d.save fs q).2.2 = some failure) : failure.IsReported := by
  cases htarget : d.target? fs q with
  | none =>
    rw [save_unnamed htarget] at h
    obtain rfl := Option.some.inj h
    trivial
  | some target =>
    rw [save_eq_saveTo htarget] at h
    unfold saveTo saveLocked at h
    split at h
    · obtain rfl := Option.some.inj h
      trivial
    · dsimp only at h
      split at h
      · obtain rfl := Option.some.inj h
        trivial
      · split at h
        · obtain rfl := Option.some.inj h
          trivial
        · contradiction

end Document

namespace Server

open Document
open FileSystem (Placed LeftAlone Rewritten)

namespace EditCall

def dryRun : EditCall → Bool
  | .addInclude _ _ _ dryRun | .removeInclude _ _ dryRun | .insertForwardDeclaration _ _ dryRun
  | .commentLines _ _ _ dryRun => dryRun

def rehearsed : EditCall → EditCall
  | .addInclude p t newGroup _ => .addInclude p t newGroup true
  | .removeInclude p t _ => .removeInclude p t true
  | .insertForwardDeclaration p t _ => .insertForwardDeclaration p t true
  | .commentLines p first last _ => .commentLines p first last true

/-- What the call does to the document. -/
def operation : EditCall → Operation
  | .addInclude _ t newGroup _ => fun d => ofEdit (d.insertInclude t newGroup)
  | .removeInclude _ t _ => fun d => ofEdit (d.removeInclude t)
  | .insertForwardDeclaration _ t _ => fun d => ofEdit (d.insertForwardDeclaration t)
  | .commentLines _ first last _ => commentRange first.toNat last.toNat

variable {d changed : Document}

theorem sameFile_operation (c : EditCall) (d : Document) : SameFile d (c.operation d).1 := by
  cases c with
  | addInclude p t newGroup => exact (d.editsOnce_insertInclude t newGroup).sameFile
  | removeInclude p t => exact (d.editsOnce_removeInclude t).sameFile
  | insertForwardDeclaration p t => exact (d.editsOnce_insertForwardDeclaration t).sameFile
  | commentLines p first last => exact sameFile_commentRange _ _ d

theorem ofEdit_eq_ok_iff {r : Document × Except EditError Bool} {changed : Document} {done : Bool} :
    ofEdit r = (changed, .ok done) ↔ r = (changed, .ok done) := by
  obtain ⟨d, r⟩ := r
  cases r <;> simp [ofEdit, Except.mapError]

theorem isReported_ofEdit {r : Document × Except EditError Bool} {changed : Document}
    {failure : Failure} (h : ofEdit r = (changed, .error failure)) : failure.IsReported := by
  obtain ⟨d, r⟩ := r
  cases r with
  | ok => simp [ofEdit, Except.mapError] at h
  | error e =>
    simp only [ofEdit, Except.mapError, Prod.mk.injEq, Except.error.injEq] at h
    obtain ⟨-, rfl⟩ := h
    trivial

theorem isReported_operation {c : EditCall} {failure : Failure}
    (h : c.operation d = (changed, .error failure)) : failure.IsReported := by
  cases c with
  | addInclude | removeInclude | insertForwardDeclaration => exact isReported_ofEdit h
  | commentLines p first last =>
    simp only [operation, commentRange] at h
    split at h
    · simp only [Prod.mk.injEq, Except.error.injEq] at h
      obtain ⟨-, rfl⟩ := h
      trivial
    · split at h
      · simp at h
      · simp only [Prod.mk.injEq, Except.error.injEq] at h
        obtain ⟨-, rfl⟩ := h
        trivial

theorem differs_operation (hclosed : d.block = none) {c : EditCall}
    (h : c.operation d = (changed, .ok true)) : Text.Differs d.text changed.text := by
  cases c with
  | addInclude p t newGroup =>
    have hedit := ofEdit_eq_ok_iff.mp h
    have hdiffers := differs_insertInclude hclosed (by rw [hedit])
    rwa [hedit] at hdiffers
  | removeInclude p t =>
    have hedit := ofEdit_eq_ok_iff.mp h
    have hdiffers := differs_removeInclude hclosed (by rw [hedit])
    rwa [hedit] at hdiffers
  | insertForwardDeclaration p t =>
    have hedit := ofEdit_eq_ok_iff.mp h
    have hdiffers := differs_insertForwardDeclaration hclosed (by rw [hedit])
    rwa [hedit] at hdiffers
  | commentLines p first last => exact differs_commentRange hclosed h

end EditCall

variable {s : Server} {p : Path} {c : EditCall}

def withFs (s : Server) (fs : FileSystem) : Server := { s with editor := { s.editor with fs := fs } }

def difference (s : Server) (file : Path) (d changed : Document) : Text :=
  Diff.unified d.text changed.text (s.displayPath file) (s.displayPath file)

section
variable [Users]

theorem isReported_resolvePath {failure : Failure} (h : s.resolvePath p = .error failure) :
    failure.IsReported := by
  unfold resolvePath at h
  split at h
  · obtain rfl := Except.error.inj h
    trivial
  split at h
  · obtain rfl := Except.error.inj h
    trivial
  · dsimp only at h
    generalize (if Path.isAbsolute (Path.expandHome s.fs.home p) = true then _ else _) =
      requested at h
    cases hvalidate : Access.validate s.fs s.allowed requested with
    | ok => simp [hvalidate, Except.mapError] at h
    | error e =>
      simp only [hvalidate, Except.mapError, Except.error.injEq] at h
      subst h
      trivial

theorem isReported_loadDocument {failure : Failure} (h : s.loadDocument p = .error failure) :
    failure.IsReported := by
  unfold loadDocument at h
  cases hfile : s.resolvePath p with
  | error e =>
    simp only [hfile, bind, Except.bind, Except.error.injEq] at h
    exact h ▸ isReported_resolvePath hfile
  | ok file =>
    simp only [hfile, bind, Except.bind] at h
    split at h
    · cases hread : Document.ofFile .source s.fs file with
      | ok => simp [hread, Except.mapError] at h
      | error e =>
        simp only [hread, Except.mapError, Except.error.injEq] at h
        subst h
        trivial
    · obtain rfl := Except.error.inj h
      trivial

/-- The operation of the call has changed the document of this file. -/
structure Edits (s : Server) (c : EditCall) (file : Path) (content : Octets)
    (d changed : Document) : Prop where
  resolved : s.resolvePath c.path = .ok file
  loaded : s.loadDocument c.path = .ok d
  read : d.ReadFrom file content
  stored : s.fs.content? file = some content
  accepted : c.operation d = (changed, .ok true)

theorem exists_edits (hworkDir : Path.isAbsolute s.fs.workDir = true) {d changed : Document}
    (hload : s.loadDocument c.path = .ok d) (haccepted : c.operation d = (changed, .ok true)) :
    ∃ file content dir name, s.Edits c file content d changed ∧ s.fs.isFile file = true ∧
      s.fs.Placed file dir name ∧ s.fs.isLink file = false ∧ changed.fileName = some file := by
  obtain ⟨file, content, hresolve, hfile, hcontent, hread⟩ := exists_read_of_loadDocument hload
  obtain ⟨requested, hvalidate⟩ := exists_of_resolvePath hresolve
  obtain ⟨-, p, hp, hthere, rfl⟩ := Access.exists_of_validate hworkDir hvalidate hfile
  obtain ⟨dir, name, hplaced⟩ := FileSystem.exists_placed hp hthere hfile
  rw [hplaced.absolute_eq] at hcontent hread
  have hsame := c.sameFile_operation d
  rw [haccepted] at hsame
  exact ⟨_, content, dir, name, ⟨hresolve, hload, hread, hcontent, haccepted⟩, hfile, hplaced,
    hplaced.isLink_eq_false hp hthere, hsame.fileName.trans hread.fileName⟩

theorem Edits.encode_ne {file : Path} {content : Octets} {d changed : Document}
    (h : s.Edits c file content d changed) : Utf8.encode changed.text ≠ content := by
  have hdiffers := EditCall.differs_operation h.read.closed h.accepted
  rw [h.read.text] at hdiffers
  exact hdiffers.encode_ne

variable [FileLock]

inductive Ended (s : Server) (c : EditCall) : Server × Answer → Prop where
  | badRange : Ended s c (s, .badRange)
  | refused (failure : Failure) (hreported : failure.IsReported) : Ended s c (s, .failed failure)
  | unchanged (reason : Text) (hrehearsal : s.call c.rehearsed = (s, .unchanged reason)) :
      Ended s c (s, .unchanged reason)
  | preview (diff : Text) (hdry : c.dryRun = true) : Ended s c (s, .preview diff)
  | saved {d changed : Document} (hload : s.loadDocument c.path = .ok d)
      (haccepted : c.operation d = (changed, .ok true)) (hdry : c.dryRun = false)
      (hrehearsal : s.call c.rehearsed =
        (s, .preview (s.difference (changed.fileName.getD []) d changed))) :
      Ended s c (s.withFs (changed.save s.fs none).1, match (changed.save s.fs none).2.2 with
        | some failure => .failed failure
        | none => .edited (s.displayPath (changed.fileName.getD []))
            (s.difference (changed.fileName.getD []) d changed))

theorem editFile_accepted {p : Path} {d changed : Document}
    {operation : Operation} (hload : s.loadDocument p = .ok d)
    (haccepted : operation d = (changed, .ok true)) (reason : Text) :
    s.editFile p operation reason true =
        (s, .preview (s.difference (changed.fileName.getD []) d changed)) ∧
      s.editFile p operation reason false = (s.withFs (changed.save s.fs none).1,
        match (changed.save s.fs none).2.2 with
        | some failure => .failed failure
        | none => .edited (s.displayPath (changed.fileName.getD []))
            (s.difference (changed.fileName.getD []) d changed)) := by
  simp only [editFile, hload, haccepted, if_true, Bool.false_eq_true, if_false, difference, true_and]
  cases (changed.save s.fs none).2.2 <;> rfl

theorem ended_editFile {reason : Text}
    (hcall : s.call c = s.editFile c.path c.operation reason c.dryRun)
    (hrehearsed : s.call c.rehearsed = s.editFile c.path c.operation reason true) :
    s.Ended c (s.call c) := by
  rw [hcall, editFile]
  split
  · next failure hload => exact .refused failure (isReported_loadDocument hload)
  · next d hload =>
    split
    · next failure hfailed => exact .refused failure (EditCall.isReported_operation hfailed)
    · next hunchanged =>
      refine .unchanged reason ?_
      rw [hrehearsed, editFile]
      simp only [hload, hunchanged]
    · next changed haccepted =>
      dsimp only
      split
      · next hdry => exact .preview _ hdry
      · next hdry =>
        have hrehearsal : s.call c.rehearsed =
            (s, .preview (s.difference (changed.fileName.getD []) d changed)) := by
          rw [hrehearsed, (editFile_accepted hload haccepted reason).1]
        have hended := Ended.saved hload haccepted (Bool.eq_false_of_not_eq_true hdry) hrehearsal
        split <;> next hsave => rwa [hsave] at hended

theorem ended_call (s : Server) (c : EditCall) : s.Ended c (s.call c) := by
  cases c with
  | addInclude p t newGroup dryRun => exact ended_editFile rfl rfl
  | removeInclude p t dryRun => exact ended_editFile rfl rfl
  | insertForwardDeclaration p t dryRun => exact ended_editFile rfl rfl
  | commentLines p first last dryRun =>
    by_cases hrange : first < 1 ∨ last < first
    · have hcall : s.call (.commentLines p first last dryRun) = (s, .badRange) := if_pos hrange
      rw [hcall]
      exact .badRange
    · exact ended_editFile (if_neg hrange) (if_neg hrange)

/-- The edited text is in the file, which had another content, and all else shows as before. The
answer gives the difference, as does that of the dry run. -/
structure Written (s : Server) (c : EditCall) (file : Path) (content : Octets)
    (d changed : Document) : Prop extends Edits s c file content d changed where
  rewritten : s.fs.Rewritten (s.call c).1.fs file (Utf8.encode changed.text)
  anew : Utf8.encode changed.text ≠ content
  unlocked : s.fs.Vacant (lockPath file)
  answer : (s.call c).2 = .edited (s.displayPath file) (s.difference file d changed)
  rehearsal : s.call c.rehearsed = (s, .preview (s.difference file d changed))

theorem save_edited [LawfulFileLock] (hworkDir : Path.isAbsolute s.fs.workDir = true)
    (htree : s.fs.IsTree)
    (hbeside : ∀ file, s.resolvePath c.path = .ok file → s.fs.isFile file = true →
      s.fs.FreeBeside file) {d changed : Document} (hload : s.loadDocument c.path = .ok d)
    (haccepted : c.operation d = (changed, .ok true)) :
    ∃ file content, s.Edits c file content d changed ∧ changed.fileName = some file ∧
      (¬s.fs.Savable file ∧ (changed.save s.fs none).2.2 ≠ none ∧
          s.fs.LeftAlone (changed.save s.fs none).1 ∨
        s.fs.Savable file ∧ (changed.save s.fs none).2.2 = none ∧ s.fs.Vacant (lockPath file) ∧
          s.fs.Rewritten (changed.save s.fs none).1 file (Utf8.encode changed.text)) := by
  obtain ⟨file, content, dir, name, hedits, hfile, hplaced, hplain, hname⟩ :=
    exists_edits hworkDir hload haccepted
  have hsame := c.sameFile_operation d
  rw [haccepted] at hsame
  have hdisk : changed.disk = some content := hsame.disk.trans hedits.read.disk
  have htarget : changed.target? s.fs none = some file := hname
  refine ⟨file, content, hedits, hname, ?_⟩
  rw [save_eq_saveTo htarget]
  exact save_in_place hplaced hplain htree (hbeside file hedits.resolved hfile) hedits.stored hdisk

/-- Beside the file of the call there is a lock that is held. -/
def IsLocked (s : Server) (p : Path) : Prop :=
  ∃ file l q, s.resolvePath p = .ok file ∧ s.fs.locate (lockPath file) false = .ok l ∧
    s.fs.lockAt? l = some q

theorem Written.not_isLocked {file : Path} {content : Octets} {d changed : Document}
    (h : s.Written c file content d changed) : ¬s.IsLocked c.path := by
  rintro ⟨file', l, q, hresolve, hl, hheld⟩
  obtain rfl := Except.ok.inj (h.resolved.symm.trans hresolve)
  rw [FileSystem.lockAt?_eq_none (h.unlocked l hl)] at hheld
  contradiction

/-- What a call may answer, and what has happened then. Over a lock that is held a call fails that
would have made a difference. -/
structure Accounts (s : Server) (c : EditCall) (after : Server) (answer : Answer) : Prop where
  opening : answer.Begins "Error" ∨ answer.Begins "No change" ∨
    answer.Begins "Dry run" ∧ c.dryRun = true ∨
    answer.Begins "Successfully edited" ∧ c.dryRun = false
  reported : ∀ failure, answer = .failed failure → failure.IsReported
  rehearsed : c.dryRun = true → after = s
  unchanged : answer.Begins "No change" → after = s
  kept : answer.Begins "Error" → s.fs.LeftAlone after.fs
  written : answer.Begins "Successfully edited" →
    ∃ file content d changed, s.Written c file content d changed
  locked : s.IsLocked c.path → c.dryRun = false →
    (∃ diff, (s.call c.rehearsed).2 = .preview diff) → answer.Begins "Error"

theorem accounts_error {after : Server} {answer : Answer} {message : Text}
    (hrender : answer.render = Answer.errorText message)
    (hreported : ∀ failure, answer = .failed failure → failure.IsReported)
    (hrehearsed : c.dryRun = true → after = s) (hkept : s.fs.LeftAlone after.fs) :
    s.Accounts c after answer where
  opening := .inl (Answer.begins_of_errorText hrender)
  reported := hreported
  rehearsed := hrehearsed
  unchanged := fun h => absurd h (Answer.not_begins_of_errorText hrender).1
  kept := fun _ => hkept
  written := fun h => absurd h (Answer.not_begins_of_errorText hrender).2
  locked := fun _ _ _ => Answer.begins_of_errorText hrender

/-- For every server, every tree without a temporary file or a lock beside the file, other than a lock
that is held, and every call of a tool that edits: the answer is a text of one of four kinds, and only
failures that are reported are met. A dry run changes nothing, and neither does a call that reports
no change or an error. If the answer reports an edit, the edited text is in the file, nothing else
has changed, and a dry run in its place would have shown the same difference. -/
theorem edited_or_kept [LawfulFileLock] (s : Server)
    (hworkDir : Path.isAbsolute s.fs.workDir = true) (htree : s.fs.IsTree) (c : EditCall)
    (hbeside : ∀ file, s.resolvePath c.path = .ok file → s.fs.isFile file = true →
      s.fs.FreeBeside file) : s.Accounts c (s.call c).1 (s.call c).2 := by
  have hended := s.ended_call c
  obtain ⟨after, answer, hcall⟩ : ∃ after answer, s.call c = (after, answer) := ⟨_, _, rfl⟩
  rw [hcall] at hended ⊢
  cases hended with
  | badRange => exact accounts_error rfl (fun _ h => Answer.noConfusion h) (fun _ => rfl) (.refl _)
  | refused failure hreported =>
    exact accounts_error rfl (fun _ h => Answer.failed.inj h ▸ hreported) (fun _ => rfl) (.refl _)
  | unchanged reason hrehearsal =>
    have hfirst : (Answer.unchanged reason).render.head? = some 'N' := rfl
    exact
      { opening := .inr (.inl ⟨[':', ' '] ++ reason, rfl⟩)
        reported := fun _ h => Answer.noConfusion h
        rehearsed := fun _ => rfl
        unchanged := fun _ => rfl
        kept := fun _ => .refl _
        written := fun h => absurd (h.head_eq rfl hfirst) (by decide)
        locked := fun _ _ ⟨diff, hpreview⟩ => by
          rw [hrehearsal] at hpreview
          contradiction }
  | preview diff hdry =>
    have hfirst : (Answer.preview diff).render.head? = some 'D' := rfl
    exact
      { opening := .inr (.inr (.inl ⟨⟨", changes not written:\n".toList ++ diff, rfl⟩, hdry⟩))
        reported := fun _ h => Answer.noConfusion h
        rehearsed := fun _ => rfl
        unchanged := fun _ => rfl
        kept := fun _ => .refl _
        written := fun h => absurd (h.head_eq rfl hfirst) (by decide)
        locked := fun _ hwet => by
          rw [hdry] at hwet
          contradiction }
  | @saved d changed hload haccepted hdry hrehearsal =>
    have hnotDry : ∀ after : Server, c.dryRun = true → after = s := fun _ h => by
      rw [hdry] at h
      contradiction
    obtain ⟨file, content, hedits, hname, hsave⟩ :=
      save_edited hworkDir htree hbeside hload haccepted
    rw [hname, Option.getD_some] at hcall hrehearsal ⊢
    rcases hsave with ⟨-, hfailed, hleft⟩ | ⟨-, hsaved, hvacant, hrewritten⟩
    · obtain ⟨failure, hfailure⟩ := Option.ne_none_iff_exists'.mp hfailed
      rw [hfailure]
      exact accounts_error rfl (fun _ h => Answer.failed.inj h ▸ isReported_save hfailure)
        (hnotDry _) hleft
    · rw [hsaved] at hcall ⊢
      have hfirst : (Answer.edited (s.displayPath file) (s.difference file d changed)).render.head? =
          some 'S' := rfl
      have hwritten : s.Written c file content d changed :=
        { hedits with
          rewritten := by rwa [hcall]
          anew := hedits.encode_ne
          unlocked := hvacant
          answer := by rw [hcall]
          rehearsal := hrehearsal }
      exact
        { opening := .inr (.inr (.inr ⟨⟨_, rfl⟩, hdry⟩))
          reported := fun _ h => Answer.noConfusion h
          rehearsed := hnotDry _
          unchanged := fun h => absurd (h.head_eq rfl hfirst) (by decide)
          kept := fun h => absurd (h.head_eq rfl hfirst) (by decide)
          written := fun _ => ⟨file, content, d, changed, hwritten⟩
          locked := fun hlocked => absurd hlocked hwritten.not_isLocked }

end

theorem source_edited :
    let s := sampleServer false
    let c := EditCall.addInclude ['a'] "<b>".toList false false
    Path.isAbsolute s.fs.workDir = true ∧ s.fs.IsTree ∧ s.resolvePath c.path = .ok "/in/a".toList ∧
      s.fs.FreeBeside "/in/a".toList ∧ (s.call c).2.Begins "Successfully edited" ∧
      ∃ file content d changed, s.Written c file content d changed := by
  intro s c
  have hworkDir : Path.isAbsolute s.fs.workDir = true := by decide +kernel
  have htree : s.fs.IsTree := by decide +kernel
  have hresolve : s.resolvePath c.path = .ok "/in/a".toList := by decide +kernel
  have hbeside : s.fs.FreeBeside "/in/a".toList :=
    (FileSystem.Undisturbed.mk (by decide +kernel) (.inl (by decide +kernel))).freeBeside
  have hbegins : (s.call c).2.Begins "Successfully edited" := by decide +kernel
  have haccounts := edited_or_kept s hworkDir htree c fun file hfile _ => by
    obtain rfl := Except.ok.inj (hresolve.symm.trans hfile)
    exact hbeside
  exact ⟨hworkDir, htree, hresolve, hbeside, hbegins, haccounts.written hbegins⟩

end Server

end SourceEdit
