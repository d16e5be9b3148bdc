import SourceEdit.Proofs.SaveInPlace
import SourceEdit.Proofs.SaveRoundTrip

/-!
A file that is loaded and saved as it is. The text has lost its carriage returns when it was loaded,
and a save writes it as it is then, so the octets of the file stay if there were no carriage returns
among them. A save that fails leaves all octets.
-/

set_option autoImplicit false

namespace SourceEdit

open FileSystem (lockPath)
open SourceEdit.Path (Splits)

namespace Utf8

/-- An octet below 0x80 stands for the character of this number, and for no part of another one. -/
theorem mem_encodeChar_iff {b : UInt8} (h : b.toNat < 0x80) (c : Char) :
    b ∈ encodeChar c ↔ c.toNat = b.toNat := by
  have hbounds := toNat_bounds c
  have hhigh : ∀ m, 0x80 ≤ m → m < 0x100 → b ≠ UInt8.ofNat m := by
    rintro m hlow hm rfl
    rw [toNat_ofNat hm] at h
    omega
  unfold encodeChar
  dsimp only
  generalize c.toNat = n at hbounds
  split
  · rw [List.mem_singleton, ← UInt8.toNat_inj, toNat_ofNat (by omega), eq_comm]
  · refine iff_of_false ?_ (by omega)
    split
    · simp only [List.mem_cons, List.not_mem_nil, or_false, not_or]
      exact ⟨hhigh _ (by omega) (by omega), hhigh _ (by omega) (by omega)⟩
    · split
      · simp only [List.mem_cons, List.not_mem_nil, or_false, not_or]
        exact ⟨hhigh _ (by omega) (by omega), hhigh _ (by omega) (by omega),
          hhigh _ (by omega) (by omega)⟩
      · simp only [List.mem_cons, List.not_mem_nil, or_false, not_or]
        exact ⟨hhigh _ (by omega) (by omega), hhigh _ (by omega) (by omega),
          hhigh _ (by omega) (by omega), hhigh _ (by omega) (by omega)⟩

theorem carriageReturn_mem_encode {t : Text} : 0x0d ∈ encode t ↔ '\r' ∈ t := by
  have hchar : ∀ c, 0x0d ∈ encodeChar c ↔ c = '\r' := by
    intro c
    rw [mem_encodeChar_iff (by decide)]
    exact ⟨fun h => Char.toNat_inj.mp h, fun h => h ▸ rfl⟩
  simp [encode, List.mem_flatMap, hchar]

theorem encode_injective : Function.Injective encode :=
  Function.LeftInverse.injective decodeLossy_encode

end Utf8

namespace FileSystem

variable {fs fs' : FileSystem} {p : Path}

theorem Sole.touched_write (h : Sole fs p) {content : Octets} (hwrite : fs.write p content = .ok fs') :
    Touched fs fs' (fs.locate p true = .ok ·) := by
  obtain ⟨l, hl, -, htouched, -⟩ := touched_of_write hwrite
  exact htouched.mono fun m hone => hone.eq (h.single l hl) ▸ hl

theorem Sole.touched_remove (h : Sole fs p) (hremove : fs.remove p = .ok fs') :
    Touched fs fs' (fs.locate p true = .ok ·) := by
  obtain ⟨l, -, hl, -, hdir, -, rfl⟩ := exists_of_remove hremove
  have hlink := isLink_eq_false_iff.mp h.notLink l hl
  exact (touched_erase ⟨hdir, hlink⟩).mono fun m heq => heq ▸ locate_true_of_false hl hlink

theorem sameNames_of_write {content : Octets} (hwrite : fs.write p content = .ok fs') :
    SameNames fs fs' := by
  obtain ⟨l, -, hmay, rfl⟩ := write_eq_ok_iff.mp hwrite
  exact sameNames_putFile (isEnd_of_mayWriteAt hmay).ne_top content rfl

end FileSystem

namespace Document

open FileSystem

variable {fs fs' : FileSystem} {d : Document} {p above : Path} {name : Text} {c : Octets}

theorem not_moved {l : Location} (hsplits : Splits p above name)
    (htemporary : Sole fs (temporaryPath p)) (hl : fs.locate p false = .ok l)
    (hmay : fs.mayChangeAt l = false) (moved : FileSystem) :
    fs.move (temporaryPath p) p ≠ .ok moved := by
  intro hmove
  obtain ⟨hp, hname, dir, hdir, rfl⟩ := (locate_false_iff hsplits).mp hl
  rcases moved_of_move hsplits hmove hdir with ⟨hone, -⟩ | ⟨-, hchange, -⟩
  · obtain ⟨m, -, -, hm, -⟩ := exists_of_move hmove
    have hthere := locate_false_of_leads (temporaryPath_splits hsplits) hm hdir
    have hplace := locate_true_of_false hthere (isLink_eq_false_iff.mp htemporary.notLink _ hthere)
    exact absurd (hone.eq (htemporary.single _ hplace)) (by simp)
  · rw [hmay] at hchange
    contradiction

theorem touched_replaceFile {content : Octets} (hsplits : Splits p above name)
    (htemporary : Sole fs (temporaryPath p))
    (hmove : ∀ written moved, fs.write (temporaryPath p) content = .ok written →
      written.move (temporaryPath p) p ≠ .ok moved) :
    (replaceFile fs p content).2 ≠ none ∧
      Touched fs (replaceFile fs p content).1 (fs.locate (temporaryPath p) true = .ok ·) := by
  have habsolute := (temporaryPath_splits hsplits).absolute
  obtain ⟨stopped, hsteps, hremoved⟩ := replaceFile_cases fs p content
  obtain ⟨hfailed, htouched, hsole⟩ : (replaceFile fs p content).2 ≠ none ∧
      Touched fs stopped (fs.locate (temporaryPath p) true = .ok ·) ∧
      Sole stopped (temporaryPath p) := by
    rcases hsteps with ⟨rfl, hfailed⟩ | ⟨hwrite, hfailed⟩ | ⟨written, hwrite, hmoved⟩
    · exact ⟨hfailed, fun _ => .inl rfl, htemporary⟩
    · have htouched := htemporary.touched_write hwrite
      exact ⟨hfailed, htouched,
        htemporary.of_alike habsolute htouched.alike (sameNames_of_write hwrite)⟩
    · exact absurd hmoved (hmove written stopped hwrite)
  refine ⟨hfailed, ?_⟩
  rcases hremoved with hfinal | hremove
  · rwa [hfinal]
  · refine htouched.trans ((hsole.touched_remove hremove).mono fun m hm => ?_)
    exact (htouched.alike.locate_iff habsolute).mpr hm

variable [FileLock] [LawfulFileLock]

theorem saveTo_of_savable (htree : fs.IsTree) (hbeside : Beside p above name)
    (hsplits : Splits p above name)
    (hplain : ∀ q ∈ [lockPath p, temporaryPath p], Sole fs q) (hapart : fs.Apart (lockPath p) p)
    (hc : fs.content? p = some c) (hdisk : d.disk = some c) (hsavable : fs.Savable p) :
    (d.saveTo fs p).2.2 = none ∧ (d.saveTo fs p).1.octets? p = some (Utf8.encode d.text) := by
  have hmake := makeParents_of_octets? hsplits (octets?_of_content? hc)
  obtain ⟨halike, hnames⟩ := alike_of_acquire hmake
  obtain ⟨fs₁, dir, hmake', hsite⟩ := hsavable.exists_site hbeside hsplits htree fun q hq =>
    (hplain q hq).of_alike (absolute_of_beside hsplits hq) halike hnames
  obtain rfl := (Prod.mk.inj (hmake.symm.trans hmake')).1
  obtain ⟨x, state, hx, hentry, -⟩ := content?_eq_some_iff.mp hc
  obtain ⟨hgoal, hway⟩ := leads_put_of_locate hsplits hsite.leads hx (isEnd_of_file hentry)
  have hsaved : (d.saveTo fs p).2.2 = none := by
    refine saves_at_site hsite hsavable.lock hsplits hgoal ?_
    rw [isChangedOutside, hdisk, content?_acquire hsplits hapart hc]
    simp
  obtain ⟨-, hstored, -⟩ := saved_at_site hsite hsaved
  obtain ⟨hstored, hfinal⟩ := hstored hway
  exact ⟨hsaved, hstored.octets?_eq hsplits hfinal⟩

theorem saveTo_of_not_savable (hsplits : Splits p above name)
    (hplain : Sole fs (temporaryPath p))
    (hapart : ∀ q ∈ [lockPath p, temporaryPath p], fs.Apart q p)
    (hc : fs.content? p = some c) (hsavable : ¬fs.Savable p) :
    (d.saveTo fs p).2.2 ≠ none ∧ (d.saveTo fs p).1.content? p = some c := by
  have hmake := makeParents_of_octets? hsplits (octets?_of_content? hc)
  have hlockApart := hapart (lockPath p) (by simp)
  have hlocked := content?_acquire hsplits hlockApart hc
  obtain ⟨halike, hnames⟩ := alike_of_acquire hmake
  have habsolute := (lockPath_splits hsplits).absolute
  have htemporary := (temporaryPath_splits hsplits).absolute
  cases hacquire : (fs.acquire p).2 with
  | some e =>
    rw [saveTo_of_refused hacquire]
    exact ⟨by simp, hlocked⟩
  | none =>
    have hsole := hplain.of_alike htemporary halike hnames
    obtain ⟨locked, heq⟩ : ∃ locked, fs.acquire p = (locked, none) := ⟨_, by rw [← hacquire]⟩
    rw [heq] at hlocked halike hnames hsole
    have hmove : ∀ written moved,
        locked.write (temporaryPath p) (Utf8.encode d.text) = .ok written →
        written.move (temporaryPath p) p ≠ .ok moved := by
      intro written moved hwrite
      have hwritten := hsole.touched_write hwrite
      have hnot : ¬∀ l, locked.locate p false = .ok l → locked.mayChangeAt l = true := by
        intro hdirectory
        obtain ⟨l, hl, hmay, -⟩ := write_eq_ok_iff.mp hwrite
        have hwritable : (locked.write (temporaryPath p) []).isOk = true := by
          rw [write_eq_ok_iff.mpr ⟨l, hl, hmay, rfl⟩]
          rfl
        exact hsavable ⟨hacquire, by rwa [heq], by rwa [heq]⟩
      push Not at hnot
      obtain ⟨l, hl, hmay⟩ := hnot
      refine not_moved hsplits (hsole.of_alike htemporary hwritten.alike (sameNames_of_write hwrite))
        ((hwritten.alike.locate_iff hsplits.absolute).mp hl) ?_ moved
      rw [hwritten.alike.mayChangeAt_eq]
      simpa using hmay
    obtain ⟨hfailed, htouched⟩ := touched_replaceFile hsplits hsole hmove
    have hrest : (d.saveLocked locked p).2.2 ≠ none ∧ Touched locked (d.saveLocked locked p).1
        (locked.locate (temporaryPath p) true = .ok ·) := by
      unfold saveLocked
      split
      · exact ⟨by simp, fun _ => .inl rfl⟩
      · split
        · next hreplace =>
          rw [hreplace] at htouched
          exact ⟨by simp, htouched⟩
        · next hreplace =>
          rw [hreplace] at hfailed
          exact absurd rfl hfailed
    rw [saveTo_of_acquire heq]
    refine ⟨hrest.1, ?_⟩
    have halikeRest := halike.trans hrest.2.alike
    refine content?_release hsplits (fun l hl hl' => ?_) (fun l hl => ?_) ?_
    · exact hlockApart l ((halikeRest.locate_iff habsolute).mpr hl) l
        ((halikeRest.locate_iff hsplits.absolute).mpr hl') (.inl rfl)
    · obtain ⟨fs₁, m, content, hmake', hm, hmay, -⟩ := exists_of_acquire hacquire
      obtain rfl := (Prod.mk.inj (hmake.symm.trans hmake')).1
      obtain rfl := Except.ok.inj (hm.symm.trans ((halikeRest.locate_iff habsolute).mpr hl))
      exact halikeRest.isEnd (isEnd_of_mayLockAt hmay)
    · refine content?_of_touched hsplits.absolute hrest.2 (fun m hm hm' => ?_) hlocked
      exact hapart (temporaryPath p) (by simp) m ((halike.locate_iff htemporary).mpr hm') m
        ((halike.locate_iff hsplits.absolute).mpr hm) (.inl rfl)

/-- For every file whose octets are a text in UTF-8, where the lock and the temporary file are no
links, have no other names and are not the file itself: it is loaded, and the document sees no changes
to save. If it is saved all the same, which fails where the lock or the temporary file cannot be had
or its directory cannot be changed, then each pair of carriage return and newline and then each other
carriage return is a newline in the file. So its octets are the same afterwards exactly if the save
failed or if there is no carriage return among them. -/
theorem save_unedited_octets (hworkDir : Path.isAbsolute fs.workDir = true) (htree : fs.IsTree)
    {q : Path} {t : Text}
    (hcontent : fs.content? (Path.absolute fs.workDir q) = some (Utf8.encode t))
    (hplain : ∀ beside ∈ [lockPath (Path.absolute fs.workDir q),
      temporaryPath (Path.absolute fs.workDir q)],
      Sole fs beside ∧ fs.Apart beside (Path.absolute fs.workDir q)) (reader : Document) :
    ∃ d, reader.load fs q = .ok d ∧ d.hasChanges = false ∧
      let r := d.save fs none
      let after := r.1.octets? (Path.absolute fs.workDir q)
      (r.2.2 = none ↔ fs.Savable (Path.absolute fs.workDir q)) ∧
      (r.2.2 = none →
        after = some (Utf8.encode (Text.replaceChar '\r' '\n' (Text.joinPairs t)))) ∧
      (after = some (Utf8.encode t) ↔ r.2.2 ≠ none ∨ 0x0d ∉ Utf8.encode t) := by
  obtain ⟨q', hq', heq⟩ := Path.absolute_eq_normalize hworkDir q
  obtain ⟨above, name, hbeside⟩ := exists_beside (heq ▸ Path.straight_normalize hq')
  obtain ⟨d, hload, htext, hunchanged, hname, hdisk⟩ :=
    load_of_content? (d := reader) hcontent
  obtain ⟨x, state, hx, hentry, -⟩ := content?_eq_some_iff.mp hcontent
  have hsplits := hbeside.splits_of_locate hx (isEnd_of_file hentry)
  have hsole := fun beside hbeside => (hplain beside hbeside).1
  have hapart := fun beside hbeside => (hplain beside hbeside).2
  rw [Utf8.decodeLossy_encode] at htext
  have htarget : d.target? fs none = some (Path.absolute fs.workDir q) := hname
  refine ⟨d, hload, by simp [hasChanges, hunchanged], ?_⟩
  rw [save_eq_saveTo htarget, Utf8.carriageReturn_mem_encode, ← Text.unifyNewlines_eq, ← htext]
  by_cases hsavable : fs.Savable (Path.absolute fs.workDir q)
  · obtain ⟨hsaved, hafter⟩ := saveTo_of_savable htree hbeside hsplits hsole
      (hapart _ (by simp)) hcontent hdisk hsavable
    simp [hsaved, hafter, hsavable, Utf8.encode_injective.eq_iff, htext,
      Text.unifyNewlines_eq_self_iff]
  · obtain ⟨hfailed, hafter⟩ := saveTo_of_not_savable (d := d) hsplits (hsole _ (by simp)) hapart
      hcontent hsavable
    simp [hfailed, octets?_of_content? hafter, hsavable]

end Document

namespace Document

open FileSystem

def mixedLineEnds : FileSystem where
  entries := [([['f']], .link ['g']),
    ([['g']], .file (Utf8.encode ['é', '\r', '\n', '\r', 'b', '\n']) {}),
    (["f.lock".toList], .file [] {}), (["f.tmp".toList], .file [0x32] {})]
  workDir := ['/']
  home := ['/']

theorem save_unedited_mixed_line_ends :
    mixedLineEnds.IsTree ∧ (∀ beside ∈ [lockPath ['/', 'f'], temporaryPath ['/', 'f']],
        Sole mixedLineEnds beside ∧ mixedLineEnds.Apart beside ['/', 'f']) ∧
      ∃ d, (new .source [] none).load mixedLineEnds ['f'] = .ok d ∧ d.hasChanges = false ∧
        (d.save mixedLineEnds none).2.2 = none ∧
        (d.save mixedLineEnds none).1.octets? ['/', 'f'] =
          some (Utf8.encode ['é', '\n', '\n', 'b', '\n']) := by
  have htree : mixedLineEnds.IsTree := by decide +kernel
  have hplain : ∀ beside ∈ [lockPath ['/', 'f'], temporaryPath ['/', 'f']],
      Sole mixedLineEnds beside ∧ mixedLineEnds.Apart beside ['/', 'f'] := by decide +kernel
  have hcontent : mixedLineEnds.content? (Path.absolute mixedLineEnds.workDir ['f']) =
      some (Utf8.encode ['é', '\r', '\n', '\r', 'b', '\n']) := by decide +kernel
  obtain ⟨d, hload, hunchanged, hsavable, hafter, -⟩ :=
    save_unedited_octets rfl htree hcontent hplain (new .source [] none)
  have hsaved := hsavable.mpr (by decide +kernel)
  exact ⟨htree, hplain, d, hload, hunchanged, hsaved, hafter hsaved⟩

theorem save_unedited_loses_returns :
    let fs : FileSystem := ⟨[([['a']], .file [0x78, 0x0d, 0x0a] {})], ['/'], ['/']⟩
    let d := { new .source ['x', '\n'] (some ['/', 'a']) with disk := some [0x78, 0x0d, 0x0a] }
    (new .source [] none).load fs ['a'] = .ok d ∧ (d.save fs none).2.2 = none ∧
      (d.save fs none).1.octets? ['/', 'a'] = some [0x78, 0x0a] := by
  decide +kernel

end Document

end SourceEdit
