import SourceEdit.Proofs.MadeDirectories

set_option autoImplicit false

namespace SourceEdit.FileSystem

variable {fs fs' : FileSystem} {p : Path}

/-- Directories and links stay as they are, and files stay files. -/
structure Spares (fs fs' : FileSystem) : Prop where
  directory : ∀ l rights, fs.entryAt? l = some (.dir rights) → fs'.entryAt? l = some (.dir rights)
  link : ∀ l target, fs.entryAt? l = some (.link target) → fs'.entryAt? l = some (.link target)
  file : ∀ l content state, fs.entryAt? l = some (.file content state) →
    ∃ content' state', fs'.entryAt? l = some (.file content' state')

namespace Spares

theorem refl (fs : FileSystem) : Spares fs fs :=
  ⟨fun _ _ h => h, fun _ _ h => h, fun _ content state h => ⟨content, state, h⟩⟩

theorem trans {fs'' : FileSystem} (h : Spares fs fs') (h' : Spares fs' fs'') : Spares fs fs'' where
  directory := fun l rights hl => h'.directory l rights (h.directory l rights hl)
  link := fun l target hl => h'.link l target (h.link l target hl)
  file := fun l content state hl => by
    obtain ⟨content', state', hl'⟩ := h.file l content state hl
    exact h'.file l content' state' hl'

theorem isFile (h : Spares fs fs') (hp : Path.isAbsolute p = true) (hfile : fs.isFile p = true) :
    fs'.isFile p = true := by
  obtain ⟨l, content, state, hl, hentry⟩ := isFile_iff.mp hfile
  obtain ⟨content', state', hentry'⟩ := h.file l content state hentry
  rw [locate_eq_ok_iff, start_of_absolute fs hp] at hl
  obtain ⟨husable, n, hn, hwalk⟩ := hl
  refine isFile_iff.mpr ⟨l, content', state', ?_, hentry'⟩
  rw [locate_eq_ok_iff, start_of_absolute fs' hp]
  exact ⟨husable, n, hn, hwalk.transfer rooted_top (fun m r _ => h.directory m r)
    (fun m target _ hm => .inl (h.link m target hm)) fun _ => isEnd_of_file hentry'⟩

theorem of_put {l : Location} (hl : l ≠ []) (hnone : fs.entryAt? l = none) (e : Entry) :
    Spares fs (fs.put l e) := by
  have hsame : ∀ m e', fs.entryAt? m = some e' → (fs.put l e).entryAt? m = some e' := by
    intro m e' hm
    have hne : l ≠ m := by
      rintro rfl
      rw [hnone] at hm
      contradiction
    rw [entryAt?_put fs m e hl, if_neg hne, hm]
  exact ⟨fun m r => hsame m _, fun m target => hsame m _, fun m content state hm =>
    ⟨content, state, hsame m _ hm⟩⟩

theorem of_makeDirectory (h : fs.makeDirectory p = .ok fs') : Spares fs fs' := by
  obtain ⟨l, -, hnone, rfl⟩ := exists_of_makeDirectory h
  exact of_put (isEnd_of_none hnone).ne_top hnone _

theorem of_makeDirectories (depth : Nat) (fs : FileSystem) (p : Path) :
    Spares fs (makeDirectories depth fs p).1 := by
  induction depth generalizing fs p with
  | zero => exact .refl fs
  | succ depth ih =>
    rw [makeDirectories]
    dsimp only
    split
    · split
      · exact .refl fs
      · split
        · next fs' hmake =>
          have hparents := ih fs (Path.dirName p)
          rw [hmake] at hparents
          split
          · next hmade => exact hparents.trans (of_makeDirectory hmade)
          · exact hparents
        · exact ih fs (Path.dirName p)
    · split
      · next hmade => exact of_makeDirectory hmade
      · exact .refl fs

theorem of_write {content : Octets} (h : fs.write p content = .ok fs') : Spares fs fs' := by
  obtain ⟨l, -, hmay, rfl⟩ := write_eq_ok_iff.mp h
  have hend := isEnd_of_mayWriteAt hmay
  have htouched := touched_putFile hend content (rfl : (fs.stateAt l).shared = _)
  refine ⟨fun m r hm => ?_, fun m target hm => ?_, fun m c state hm => ?_⟩
  · rw [htouched.same fun hone => ?_, hm]
    exact isDirAt_eq_false_iff.mp (hone.isEnd hend).1 r hm
  · rw [htouched.same fun hone => ?_, hm]
    exact (hone.isEnd hend).2 target hm
  · rw [entryAt?_putFile hend.ne_top content rfl]
    split
    · exact ⟨content, _, rfl⟩
    · exact ⟨c, state, hm⟩

end Spares

end SourceEdit.FileSystem
