import OsKernel.GrepLines

/-!
# grep over the files of the directory

The loop over the reads of a file and the loop over the names of the directory. Of a file without NULs all lines
with the pattern are printed, whatever the reads return; in a file with NULs the buffer's strings end early, and all
that is left is that `grep` stays inside its buffers and goes on with the next file.
-/

namespace OsKernel

open Library

namespace UserView

variable {fs : FileSystem} {v v₀ : UserView} {s fname data : CharBuf} {pattern name w rest total : List UInt8}
  {cnt : UInt32} {g : GrepLines} {last e : ℕ} {r : Bool} {text : Prop}

/-- All but descriptor `i` is as it was, and `out` was printed. -/
structure Printed (i : Fin 8) (v₀ : UserView) (out : List UInt8) (v : UserView) : Prop where
  files : ∀ j, j ≠ i → v.files j = v₀.files j
  args : v.args = v₀.args
  input : v.input = v₀.input
  output : v.output = v₀.output ++ out

/-- A move of the descriptor prints nothing. -/
theorem Printed.move {i : Fin 8} {out : List UInt8} {v' : UserView} (h : Printed i v₀ out v) (hsame : SameBut i v v') :
    Printed i v₀ out v' :=
  ⟨fun j hj => (hsame.files j hj).trans (h.files j hj), hsame.args.trans h.args, hsame.input.trans h.input,
    hsame.output.trans h.output⟩

/-- More output. -/
theorem Printed.print {i : Fin 8} {out : List UInt8} (h : Printed i v₀ out v) (more : List UInt8) :
    Printed i v₀ (out ++ more) (v.print more) :=
  ⟨h.files, h.args, h.input, by rw [print_output, h.output, List.append_assoc]⟩

/-- The loop over the reads, with `n` bytes still in the file. -/
structure Grepping (text : Prop) (pattern name total : List UInt8) (image : Image) (i : Fin 8) (v₀ : UserView) (n : ℕ)
    (buf : CharBuf × ℕ) (v : UserView) : Prop where
  size : buf.1.size = BUFSIZE + 1
  guard : buf.1.byte BUFSIZE ≠ NEWLINE
  room : buf.2 < BUFSIZE
  prints : v.Prints
  printed : ∃ rest out, v.Reading image.fs i rest ∧ rest.length = n ∧ Printed i v₀ out v ∧
    (text → 0 ∉ buf.1.slice 0 buf.2 ∧ 0 ∉ rest ∧ out ++ grepText pattern name (buf.1.slice 0 buf.2 ++ rest) = total)

/-- The end of that loop. -/
structure Grepped (text : Prop) (total : List UInt8) (image : Image) (i : Fin 8) (v₀ : UserView) (early : Option ℤ)
    (v : UserView) : Prop where
  done : early = none
  reading : v.Reading image.fs i []
  printed : ∃ out, Printed i v₀ out v ∧ (text → out = total)

/-- The bytes in the buffer after a read. -/
theorem slice_filled {m m' : CharBuf} {a : ℕ} {bytes : List UInt8} (h : m.Filled m' a bytes) :
    m'.slice 0 (a + bytes.length) = m.slice 0 a ++ bytes := by
  rw [← m'.slice_append (Nat.zero_le a) (Nat.le_add_right a _), h.slice]
  congr 1
  exact CharBuf.slice_congr fun j _ hj => h.frame j (.inl hj)

/-- A turn reads on, or finds that the file is at its end. -/
theorem Grepping.turn {image : Image} {i : Fin 8} {n : ℕ} {buf : CharBuf × ℕ}
    (h : Grepping text pattern name total image i v₀ n buf v) (hi : i ≠ 1) (hpattern : s.SpellsAt 0 pattern)
    (hne : pattern ≠ []) (hname : fname.SpellsAt 0 name) :
    (∃ early v', runView image.fs (grepRead s fname pattern.length i.val buf) v = some (.inr early, v') ∧
        Grepped text total image i v₀ early v') ∨
      ∃ buf' v', runView image.fs (grepRead s fname pattern.length i.val buf) v = some (.inl buf', v') ∧
        ∃ m < n, Grepping text pattern name total image i v₀ m buf' v' := by
  obtain ⟨hsize, hguard, hroom, hprints, rest, out, hreading, rfl, hprinted, htext⟩ := h
  have hbufsize : BUFSIZE = 1024 := rfl
  have hcount : (UInt32.ofNat (BUFSIZE - buf.2)).toNat = BUFSIZE - buf.2 :=
    UInt32.toNat_ofNat_of_lt' (lt_of_le_of_lt (Nat.sub_le _ _) (by decide))
  obtain ⟨v₁, hread, hreading₁, hsame⟩ := hreading.read (UInt32.ofNat (BUFSIZE - buf.2))
  rw [hcount] at hread hreading₁
  have htaken : (rest.take (BUFSIZE - buf.2)).length = min (BUFSIZE - buf.2) rest.length := List.length_take
  have hsmall : (rest.take (BUFSIZE - buf.2)).length ≤ 1024 := by omega
  obtain ⟨-, hnat, hok⟩ := count_eq hsmall
  obtain ⟨data, hfill, hfilled⟩ := buf.1.fill_eq buf.2 (rest.take (BUFSIZE - buf.2)) (by omega)
  have hguard₁ : data.byte BUFSIZE ≠ NEWLINE := by
    rw [hfilled.frame BUFSIZE (.inr (by omega))]
    exact hguard
  have hprints₁ := hsame.prints hi hprints
  have hbytes : data.slice 0 (buf.2 + (rest.take (BUFSIZE - buf.2)).length) ++ rest.drop (BUFSIZE - buf.2) =
      buf.1.slice 0 buf.2 ++ rest := by
    rw [slice_filled hfilled, List.append_assoc, List.take_append_drop]
  have hscanning : Scanning text pattern name (rest.drop (BUFSIZE - buf.2))
      (grepText pattern name (buf.1.slice 0 buf.2 ++ rest)) v₁ (buf.2 + (rest.take (BUFSIZE - buf.2)).length)
      ⟨data, buf.2 + (rest.take (BUFSIZE - buf.2)).length, 0⟩ v₁ := by
    refine ⟨hfilled.size.trans hsize, hguard₁, rfl, by omega, Nat.zero_le _, [], (print_nil v₁).symm, fun ht => ?_⟩
    obtain ⟨hproper, hrest, -⟩ := htext ht
    rw [List.nil_append, hbytes, slice_filled hfilled, List.mem_append, not_or]
    exact ⟨⟨hproper, fun hmem => hrest (List.mem_of_mem_take hmem)⟩, rfl⟩
  have hfull : rest.drop (BUFSIZE - buf.2) = [] ∨ buf.2 + (rest.take (BUFSIZE - buf.2)).length = BUFSIZE ∧
      0 ≠ UInt32.ofNat (rest.take (BUFSIZE - buf.2)).length := by
    by_cases hend : rest.length ≤ BUFSIZE - buf.2
    · exact .inl (List.drop_of_length_le hend)
    · refine .inr ⟨by omega, fun hzero => ?_⟩
      rw [← hzero, UInt32.toNat_zero] at hnat
      omega
  obtain ⟨buf', v₂, hrun, hscanned⟩ := hscanning.run image.fs hprints₁ hpattern hne hname hfull
    (data.size + 1) (by rw [hfilled.size]; omega)
  obtain ⟨hsize', hguard', hroom', hdrained, more, rfl, htext'⟩ := hscanned
  have hturn : runView image.fs (grepRead s fname pattern.length i.val buf) v =
      some (if UInt32.ofNat (rest.take (BUFSIZE - buf.2)).length = 0 then .inr none else .inl buf', v₁.print more) := by
    simp only [grepRead, runView, Dialogue.run_bind, Dialogue.run_ask, hread, Option.bind_some, hfill,
      Dialogue.run_expect, if_neg hok, hnat]
    have hloop : Dialogue.run (fun v => v.answer image.fs) _ v₁ = _ := hrun
    rw [hloop, Option.bind_some]
    split_ifs <;> rfl
  have htotal (ht : text) :
      (out ++ more) ++ grepText pattern name (buf'.1.slice 0 buf'.2 ++ rest.drop (BUFSIZE - buf.2)) =
      total := by
    rw [List.append_assoc, (htext' ht).2]
    exact (htext ht).2.2
  have hprinted' := (hprinted.move hsame).print more
  by_cases hzero : UInt32.ofNat (rest.take (BUFSIZE - buf.2)).length = 0
  · rw [if_pos hzero] at hturn
    have hnil : rest = [] := by
      rw [hzero, UInt32.toNat_zero] at hnat
      exact List.length_eq_zero_iff.mp (by omega)
    subst hnil
    rw [List.drop_nil] at hreading₁ htotal
    refine .inl ⟨none, _, hturn, rfl, hreading₁.print more, out ++ more, hprinted', fun ht => ?_⟩
    have hend := htotal ht
    rw [hdrained hzero, CharBuf.slice_self _ (le_refl 0), List.append_nil, grepText_nil hne, List.append_nil] at hend
    exact hend
  · rw [if_neg hzero] at hturn
    have hpos : 0 < rest.length := by
      by_contra hempty
      obtain rfl := List.length_eq_zero_iff.mp (Nat.eq_zero_of_not_pos hempty)
      exact hzero (by rw [List.take_nil]; rfl)
    refine .inr ⟨buf', _, hturn, (rest.drop (BUFSIZE - buf.2)).length, ?_, hsize', hguard', hroom',
      hprints₁.print more, _, out ++ more, hreading₁.print more, rfl, hprinted',
        fun ht => ⟨(htext' ht).1, ?_, htotal ht⟩⟩
    · rw [List.length_drop]
      omega
    · exact fun hmem => (htext ht).2.1 (List.mem_of_mem_drop hmem)

/-- A close of a descriptor behind the standard ones. -/
theorem answer_close {i : Fin 8} {f : OpenFile} (hfile : v.files i = some f) (hfop : f.fop ≠ .stdin ∧ f.fop ≠ .stdout)
    (hi : FD_START ≤ i.val) :
    v.answer fs (.close i.val) = some ((0, []), { v with files := v.files.release i }) := by
  have hindex : descIndex FD_START (i.val : ℤ) = some i := descIndex_eq_some.mpr ⟨rfl, hi⟩
  simp only [answer, hindex, hfile, if_neg (not_or.mpr hfop)]

/-- A descriptor that was free is as before when it is free again. -/
theorem Printed.release {i : Fin 8} {out : List UInt8} (h : Printed i v₀ out v) (hfree : v₀.files i = none) :
    ({ v with files := v.files.release i } : UserView) = v₀.print out := by
  have hfiles : v.files.release i = v₀.files := by
    funext j
    by_cases hj : j = i
    · rw [hj, SlotMap.release_self, hfree]
    · rw [SlotMap.release_of_ne _ hj, h.files j hj]
  rw [hfiles, h.args, h.input, h.output]
  rfl

/-- `do_one_file` once its file is open: what its loop ends with is left but for the close. -/
theorem run_doOneFile_opened {i : Fin 8} {f : OpenFile} (hpattern : s.SpellsAt 0 pattern)
    (hopens : Opens fs v (fname.tail 0) i f) {turns : ℕ} {v₁ : UserView}
    (hloop : runView fs (.loop (grepRead s fname pattern.length i.val) turns (data, 0))
      { v with files := v.files.hold i f } = some (none, v₁))
    {f₁ : OpenFile} (hfile : v₁.files i = some f₁) (hfop : f₁.fop ≠ .stdin ∧ f₁.fop ≠ .stdout) :
    runView fs (doOneFile turns s fname data) v = some (0, { v₁ with files := v₁.files.release i }) := by
  have hi := (SlotMap.leastFree_eq_some.mp hopens.free).1
  have hlt : i.val < 8 := i.isLt
  have hint : (UInt32.ofNat i.val).toInt32.toInt = i.val := toInt_ofNat (by omega)
  have hne : UInt32.ofNat i.val ≠ FAIL := by
    intro hfail
    have hnat := congrArg UInt32.toNat hfail
    rw [UInt32.toNat_ofNat_of_lt' (lt_trans hlt (by decide)), toNat_FAIL] at hnat
    omega
  have hzero : (0 : UInt32) ≠ FAIL := by decide
  have hrun : Dialogue.run (fun v : UserView => v.answer fs) _ _ = _ := hloop
  simp only [doOneFile, runView, ece391Strlen_eq hpattern, Dialogue.run_bind, Dialogue.run_expect, Dialogue.run_ask,
    hopens.answer, Option.bind_some, if_neg hne, hint, hrun, answer_close hfile hfop hi, if_neg hzero,
    Dialogue.run_pure]

/-- `do_one_file` on a regular file ends with all as it was but for its output; of a text it prints the lines with
the pattern. -/
theorem run_doOneFile_file {image : Image} {i : Fin 8} {entry : Dentry} {turns : ℕ} (hprints : v.Prints)
    (hpattern : s.SpellsAt 0 pattern) (hne : pattern ≠ []) (hname : fname.SpellsAt 0 name) (hnamed : name ≠ [])
    (hentry : image.fs.entryNamed name = some entry) (htype : entry.fileType = 2)
    (hfree : v.files.leastFree FD_START = some i) (hsize : data.size = BUFSIZE + 1)
    (hguard : data.byte BUFSIZE ≠ NEWLINE) (hturns : 4294967296 ≤ turns) :
    ∃ out, runView image.fs (doOneFile turns s fname data) v = some (0, v.print out) ∧
      (0 ∉ image.fs.fileContent entry.inodeIdx →
        out = grepText pattern name (image.fs.fileContent entry.inodeIdx)) := by
  have hlook : image.fs.readDentryByName (fname.tail 0) = some entry := by
    rw [FileSystem.readDentryByName_eq hname.spells, hentry]
  have hopens : Opens image.fs v (fname.tail 0) i ⟨.file, entry.inodeIdx, 0⟩ := by
    refine ⟨?_, hfree⟩
    rw [resolve_named _ hname.spells hnamed, hentry, Option.bind_some, htype]
    rfl
  have hi := hopens.ne_one
  have hcontent : (image.fs.fileContent entry.inodeIdx).length < turns := by
    refine lt_of_lt_of_le ?_ hturns
    rw [FileSystem.fileContent, FileSystem.length_fileBytes]
    exact UInt32.toNat_lt _
  have hempty : data.slice 0 0 = [] := data.slice_self (le_refl 0)
  have hsame := sameBut_hold v i ⟨.file, entry.inodeIdx, 0⟩
  have hstart : Grepping (0 ∉ image.fs.fileContent entry.inodeIdx) pattern name
      (grepText pattern name (image.fs.fileContent entry.inodeIdx)) image i v
      (image.fs.fileContent entry.inodeIdx).length (data, 0)
      { v with files := v.files.hold i ⟨.file, entry.inodeIdx, 0⟩ } := by
    refine ⟨hsize, hguard, show 0 < BUFSIZE by decide, hsame.prints hi hprints, _, [], reading_opened hlook htype, rfl,
      ⟨hsame.files, rfl, rfl, (List.append_nil _).symm⟩, fun ht => ?_⟩
    change 0 ∉ data.slice 0 0 ∧ _ ∧ [] ++ grepText _ _ (data.slice 0 0 ++ _) = _
    rw [hempty, List.nil_append, List.nil_append]
    exact ⟨List.not_mem_nil, ht, rfl⟩
  obtain ⟨early, v₁, hloop, rfl, hreading, out, hprinted, htext⟩ := Dialogue.run_loop (fun v => v.answer image.fs) _
    (Grepped _ _ image i v) (fun n buf v h => h.turn hi hpattern hne hname) hstart hcontent
  obtain ⟨inode, position, hfile, -⟩ := hreading.opened
  refine ⟨out, ?_, htext⟩
  rw [run_doOneFile_opened hpattern hopens hloop hfile ⟨fun h => Driver.noConfusion h, fun h => Driver.noConfusion h⟩,
    hprinted.release (SlotMap.leastFree_eq_some.mp hfree).2.1]

/-- `do_one_file` on the RTC reads nothing and prints nothing. -/
theorem run_doOneFile_rtc {i : Fin 8} {entry : Dentry} {turns : ℕ} (hprints : v.Prints)
    (hpattern : s.SpellsAt 0 pattern) (hne : pattern ≠ []) (hname : fname.SpellsAt 0 name) (hnamed : name ≠ [])
    (hentry : fs.entryNamed name = some entry) (htype : entry.fileType = 0)
    (hfree : v.files.leastFree FD_START = some i) (hsize : data.size = BUFSIZE + 1)
    (hguard : data.byte BUFSIZE ≠ NEWLINE) (hturns : 0 < turns) :
    runView fs (doOneFile turns s fname data) v = some (0, v) := by
  have hopens : Opens fs v (fname.tail 0) i ⟨.rtc, entry.inodeIdx, 0⟩ := by
    refine ⟨?_, hfree⟩
    rw [resolve_named _ hname.spells hnamed, hentry, Option.bind_some, htype]
    rfl
  have hsame := sameBut_hold v i ⟨.rtc, entry.inodeIdx, 0⟩
  have hprints' := hsame.prints hopens.ne_one hprints
  obtain ⟨turns, rfl⟩ := Nat.exists_eq_succ_of_ne_zero (Nat.ne_of_gt hturns)
  have hread := answer_rtc fs (v := { v with files := v.files.hold i ⟨.rtc, entry.inodeIdx, 0⟩ })
    (SlotMap.hold_self ..) (UInt32.ofNat (BUFSIZE - 0))
  obtain ⟨data', hfill, hfilled⟩ := data.fill_eq 0 [] (Nat.zero_le _)
  have hguard' : data'.byte BUFSIZE ≠ NEWLINE := by
    rw [hfilled.frame BUFSIZE (.inr (Nat.zero_le _))]
    exact hguard
  have hscanning : Scanning True pattern name [] [] { v with files := v.files.hold i ⟨.rtc, entry.inodeIdx, 0⟩ } 0
      ⟨data', 0, 0⟩ { v with files := v.files.hold i ⟨.rtc, entry.inodeIdx, 0⟩ } := by
    refine ⟨hfilled.size.trans hsize, hguard', rfl, Nat.zero_le _, le_refl 0, [], (print_nil _).symm, fun _ => ?_⟩
    have hempty : data'.slice 0 0 = [] := data'.slice_self (le_refl 0)
    change 0 ∉ data'.slice 0 0 ∧ [] ++ grepText _ _ (data'.slice 0 0 ++ []) = []
    rw [hempty]
    exact ⟨List.not_mem_nil, grepText_nil hne⟩
  have hnone : ([] : List UInt8) = [] ∨ 0 = BUFSIZE ∧ (0 : UInt32) ≠ 0 := .inl rfl
  obtain ⟨buf', v₁, hrun, -, -, -, -, out, rfl, htext⟩ := hscanning.run fs hprints' hpattern hne hname
    hnone (data'.size + 1) (by rw [hfilled.size]; omega)
  obtain rfl := (List.append_eq_nil_iff.mp (htext trivial).2).1
  rw [print_nil] at hrun
  have hfail : (0 : UInt32) ≠ FAIL := by decide
  have hturn : runView fs (grepRead s fname pattern.length i.val (data, 0))
      { v with files := v.files.hold i ⟨.rtc, entry.inodeIdx, 0⟩ } =
      some (.inr none, { v with files := v.files.hold i ⟨.rtc, entry.inodeIdx, 0⟩ }) := by
    simp only [grepRead, runView, Dialogue.run_bind, Dialogue.run_ask, hread, Option.bind_some, hfill,
      Dialogue.run_expect, if_neg hfail]
    have hloop : Dialogue.run (fun v : UserView => v.answer fs) _ _ = _ := hrun
    rw [UInt32.toNat_zero, Nat.add_zero, hloop, Option.bind_some, if_pos trivial]
    rfl
  rw [run_doOneFile_opened hpattern hopens (Dialogue.run_loop_leave turns hturn) (SlotMap.hold_self ..)
    ⟨fun h => Driver.noConfusion h, fun h => Driver.noConfusion h⟩]
  have hprinted : Printed i v [] { v with files := v.files.hold i ⟨.rtc, entry.inodeIdx, 0⟩ } :=
    ⟨hsame.files, rfl, rfl, (List.append_nil _).symm⟩
  rw [hprinted.release (SlotMap.leastFree_eq_some.mp hfree).2.1, print_nil]

/-- The loop of `grep` over the directory, with `n` reads to go. -/
structure GrepLoop (fs : FileSystem) (pattern start : List UInt8) (n : ℕ) (state : CharBuf × ℕ) (v : UserView) :
    Prop where
  size : state.1.size = 33
  others : ∀ j, j ≠ 2 → v.files j = DescMap.initial j
  listing : ∃ r before outs, v.Listing 2 r ∧ n = TOTAL_NUM_DIR - r ∧ fs.listing = before ++ fs.listingFrom r ∧
    r + (fs.listingFrom r).length = fs.listing.length ∧
    List.Forall₂ (GrepsTo fs pattern) (before.filter visible) outs ∧ v.output = start ++ outs.flatten

/-- How `grep` ends: its output is that of the files one behind the other. -/
structure GrepEnds (fs : FileSystem) (pattern start : List UInt8) (status : UInt32) (v : UserView) : Prop where
  ends : ∃ outs, List.Forall₂ (GrepsTo fs pattern) (fs.listing.filter visible) outs ∧
    ListEnds fs "directory entry read failed\n" (start ++ outs.flatten) status v

/-- `do_one_file` on a name of the directory. -/
theorem run_doOneFile {image : Image} {turns : ℕ} {i : Fin 8} (hprints : v.Prints) (hpattern : s.SpellsAt 0 pattern)
    (hne : pattern ≠ []) (hname : fname.SpellsAt 0 name) (hnamed : name ≠ []) (hgrep : Greppable image.fs name)
    (hfree : v.files.leastFree FD_START = some i) (hsize : data.size = BUFSIZE + 1)
    (hguard : data.byte BUFSIZE ≠ NEWLINE) (hturns : 4294967296 ≤ turns) :
    ∃ out, runView image.fs (doOneFile turns s fname data) v = some (0, v.print out) ∧
      GrepsTo image.fs pattern name out := by
  obtain ⟨entry, hentry, htype | htype⟩ := hgrep
  · have hsome : 0 < turns := lt_of_lt_of_le (by decide) hturns
    have hrun := run_doOneFile_rtc hprints hpattern hne hname hnamed hentry htype hfree hsize hguard hsome
    refine ⟨[], by rw [hrun, print_nil], fun entry' hentry' => ?_⟩
    obtain rfl := Option.some.inj (hentry.symm.trans hentry')
    exact ⟨fun _ => rfl, fun hregular => absurd (htype.symm.trans hregular) (by decide)⟩
  · obtain ⟨out, hrun, htext⟩ :=
      run_doOneFile_file hprints hpattern hne hname hnamed hentry htype hfree hsize hguard hturns
    refine ⟨out, hrun, fun entry' hentry' => ?_⟩
    obtain rfl := Option.some.inj (hentry.symm.trans hentry')
    exact ⟨fun hrtc => absurd (htype.symm.trans hrtc) (by decide), fun _ => htext⟩

/-- The name of an entry in the buffer, with the NUL that is stored behind it. -/
theorem spellsAt_stored {m m' : CharBuf} (h : m.Filled m' 0 name) (hproper : 0 ∉ name) (hroom : name.length < m.size) :
    ({ m' with byte := Function.update m'.byte name.length 0 } : CharBuf).SpellsAt 0 name := by
  refine ⟨by rw [Nat.zero_add]; exact h.size ▸ hroom, fun j hj => ?_, ?_, hproper⟩
  · have hstored := h.stored j hj
    rw [Nat.zero_add] at hstored
    rw [← hstored]
    change some (m'.byte j) = some (Function.update m'.byte name.length 0 (0 + j))
    rw [Nat.zero_add, Function.update_of_ne (Nat.ne_of_lt hj)]
  · change Function.update m'.byte name.length 0 (0 + name.length) = 0
    rw [Nat.zero_add, Function.update_self]

/-- A turn goes on with the next name, or ends the loop. -/
theorem GrepLoop.turn {image : Image} {start : List UInt8} {n turns : ℕ} {state : CharBuf × ℕ} {frames : ℕ → CharBuf}
    (h : GrepLoop image.fs pattern start n state v) (hpattern : s.SpellsAt 0 pattern) (hne : pattern ≠ [])
    (hgrep : ∀ name ∈ image.fs.listing, visible name = true → Greppable image.fs name)
    (hframes : ∀ n, (frames n).size = BUFSIZE + 1 ∧ (frames n).byte BUFSIZE ≠ NEWLINE)
    (hturns : 4294967296 ≤ turns) :
    (∃ status v', runView image.fs (grepEntry turns s frames ((2 : Fin 8).val : ℤ) state) v =
        some (.inr status, v') ∧ GrepEnds image.fs pattern start status v') ∨
      ∃ state' v', runView image.fs (grepEntry turns s frames ((2 : Fin 8).val : ℤ) state) v =
        some (.inl state', v') ∧ ∃ m < n, GrepLoop image.fs pattern start m state' v' := by
  obtain ⟨hsize, hothers, r, before, outs, hlisting, rfl, hnames, hcount, houts, hout⟩ := h
  obtain ⟨v₁, hread, hlisting₁, hsame⟩ := hlisting.read image.fs 32
  have hothers₁ (j : Fin 8) (hj : j ≠ 2) : v₁.files j = DescMap.initial j := (hsame.files j hj).trans (hothers j hj)
  have hprints₁ : v₁.Prints := ⟨_, hothers₁ 1 (by decide), rfl⟩
  have hzero : (0 : UInt32) ≠ FAIL := by decide
  rcases Nat.lt_or_eq_of_le hlisting.inside with hin | hend
  · rw [FileSystem.dirReply, if_pos hin] at hread
    rw [Nat.min_eq_left (show r + 1 ≤ TOTAL_NUM_DIR from hin)] at hlisting₁
    by_cases hnil : entryName (image.fs.dirEntry r) = []
    · rw [FileSystem.listingFrom_empty hin hnil] at hnames hcount
      rw [List.append_nil] at hnames
      rw [hnil] at hread
      obtain ⟨buf, hfill, -⟩ := state.1.fill_eq 0 [] (Nat.zero_le _)
      refine .inl ⟨0, v₁, ?_, outs, hnames ▸ houts, fun _ => ⟨rfl, hsame.output.trans hout⟩, fun hfull => ?_⟩
      · have hcnt : UInt32.ofNat ([] : List UInt8).length = 0 := rfl
        simp only [grepEntry, runView, Dialogue.run_bind, Dialogue.run_ask, hread, Option.bind_some, hfill,
          Dialogue.run_expect, hcnt, if_true, Dialogue.run_pure]
      · exact absurd (hcount.trans hfull) (Nat.ne_of_lt hin)
    · have hmem : entryName (image.fs.dirEntry r) ∈ image.fs.listing := by
        rw [hnames, FileSystem.listingFrom_name hin hnil]
        exact List.mem_append_right _ List.mem_cons_self
      have hproper := (entry_spells (image.fs.dirEntry r)).proper
      have hlength := image.fs.length_dirEntryName_le r
      rw [FileSystem.listingFrom_name hin hnil, List.append_cons] at hnames
      rw [FileSystem.listingFrom_name hin hnil, List.length_cons] at hcount
      have hcount' : r + 1 + (image.fs.listingFrom (r + 1)).length = image.fs.listing.length := by omega
      have hmeasure : TOTAL_NUM_DIR - (r + 1) < TOTAL_NUM_DIR - r := Nat.sub_lt_sub_left hin (Nat.lt_succ_self r)
      generalize entryName (image.fs.dirEntry r) = name at *
      rw [MAX_FILENAME] at hlength
      have hsmall : name.length ≤ 1024 := by omega
      obtain ⟨-, hnat, hok⟩ := count_eq hsmall
      have hcnt := count_ne_zero hsmall hnil
      obtain ⟨buf, hfill, hfilled⟩ := state.1.fill_eq 0 name (by omega)
      have hfirst : name.head? = some (buf.byte 0) := by
        rw [List.head?_eq_getElem?, ← hfilled.stored 0 (List.length_pos_iff.mpr hnil)]
      have hload : buf.load 0 = some (buf.byte 0) := CharBuf.load_eq (by rw [hfilled.size]; omega)
      by_cases hdot : 0x2E = buf.byte 0
      · have hhidden : visible name = false := by
          rw [visible, hfirst, ← hdot]
          decide
        refine .inr ⟨(buf, state.2), v₁, ?_, _, hmeasure, hfilled.size.trans hsize, hothers₁, r + 1, before ++ [name],
          outs, hlisting₁, rfl, hnames, hcount', ?_, hsame.output.trans hout⟩
        · simp only [grepEntry, runView, Dialogue.run_bind, Dialogue.run_ask, hread, Option.bind_some, hfill,
            Dialogue.run_expect, if_neg hcnt, if_neg hok, hload, if_pos hdot, Dialogue.run_pure]
        · rw [List.filter_append, List.filter_cons_of_neg (by rw [hhidden]; decide), List.filter_nil, List.append_nil]
          exact houts
      · have hvisible : visible name = true := by
          rw [visible, hfirst, decide_eq_true_eq]
          exact fun hsome => hdot (Option.some.inj hsome).symm
        have hstore : buf.store name.length 0 = some { buf with byte := Function.update buf.byte name.length 0 } :=
          CharBuf.store_eq (by rw [hfilled.size]; omega) 0
        have hfree : v₁.files.leastFree FD_START = some 3 := by
          refine SlotMap.leastFree_eq_some.mpr ⟨by decide, hothers₁ 3 (by decide), fun j hj hlo => ?_⟩
          obtain ⟨inode, hdir⟩ := hlisting₁.opened
          obtain rfl : j = 2 := by
            have hlt : j.val < 3 := hj
            have hle : 2 ≤ j.val := hlo
            exact Fin.ext (show j.val = 2 by omega)
          rw [hdir]
          exact Option.some_ne_none _
        obtain ⟨out, hrun, hout'⟩ := run_doOneFile hprints₁ hpattern hne
          (spellsAt_stored hfilled hproper (by omega)) hnil (hgrep name hmem hvisible) hfree (hframes state.2).1
          (hframes state.2).2 hturns
        refine .inr ⟨({ buf with byte := Function.update buf.byte name.length 0 }, state.2 + 1), v₁.print out, ?_, _,
          hmeasure, hfilled.size.trans hsize, hothers₁, r + 1, before ++ [name], outs ++ [out], hlisting₁.print out,
          rfl, hnames, hcount', ?_, ?_⟩
        · have hloop : Dialogue.run (fun v : UserView => v.answer image.fs) _ _ = _ := hrun
          have hret : ¬(0 : ℤ) ≠ 0 := not_not.mpr rfl
          simp only [grepEntry, runView, Dialogue.run_bind, Dialogue.run_ask, hread, Option.bind_some, hfill,
            Dialogue.run_expect, if_neg hcnt, if_neg hok, hload, if_neg hdot, hnat, hstore, hloop, if_neg hret,
            Dialogue.run_pure]
        · rw [List.filter_append, List.filter_cons_of_pos hvisible, List.filter_nil]
          exact List.rel_append houts (.cons hout' .nil)
        · rw [print_output, hsame.output, hout, List.flatten_append, List.flatten_singleton, List.append_assoc]
  · rw [FileSystem.dirReply, hend, if_neg (lt_irrefl _)] at hread
    rw [hend, FileSystem.listingFrom_end] at hnames hcount
    rw [List.append_nil] at hnames
    obtain ⟨buf, hfill, -⟩ := state.1.fill_eq 0 [] (Nat.zero_le _)
    refine .inl ⟨3, v₁.print (asciiText "directory entry read failed\n"), ?_, outs, hnames ▸ houts, fun hshort => ?_,
      fun _ => ⟨rfl, ?_⟩⟩
    · have hput :
          Dialogue.run (fun v : UserView => v.answer image.fs) (putText "directory entry read failed\n") v₁ = _ :=
        run_putText hprints₁ _ (by decide)
      simp only [grepEntry, runView, Dialogue.run_bind, Dialogue.run_ask, hread, Option.bind_some, hfill,
        Dialogue.run_expect, if_neg hzero.symm, if_true, hput, Dialogue.run_pure]
    · exact absurd hcount (Nat.ne_of_gt hshort)
    · rw [print_output, hsame.output, hout]

/-- `grep` on the view of a process that was just started with a pattern. -/
theorem run_grepMain (image : Image) {turns : ℕ} {search buf : CharBuf} {frames : ℕ → CharBuf} {dot : Dentry}
    (hfiles : v.files = DescMap.initial) (hargs : Spells (toBytes v.args) pattern)
    (hfits : pattern.length ≤ MAX_FILENAME) (hne : pattern ≠ [])
    (hdot : image.fs.entryNamed (asciiText ".") = some dot) (htype : dot.fileType = 1)
    (hgrep : ∀ name ∈ image.fs.listing, visible name = true → Greppable image.fs name)
    (hsearch : search.size = BUFSIZE) (hbuf : buf.size = 33)
    (hframes : ∀ n, (frames n).size = BUFSIZE + 1 ∧ (frames n).byte BUFSIZE ≠ NEWLINE)
    (hturns : 4294967296 ≤ turns) :
    ∃ status v', runView image.fs (grepMain turns search buf frames) v = some (status, v') ∧
      GrepEnds image.fs pattern v.output status v' := by
  have hprints := prints_initial hfiles
  have hbufsize : BUFSIZE = 1024 := rfl
  rw [MAX_FILENAME] at hfits
  have hgetargs : v.answer image.fs (.getargs 1024) = some ((0, pattern.rightpad 1024 0), v) := by
    have hshort : pattern.take (1024 : UInt32).toNat = pattern :=
      List.take_of_length_le (le_trans hfits (by decide))
    rw [answer_getargs hargs, if_neg hne, hshort]
    rfl
  have hlength : (pattern.rightpad 1024 0).length = 1024 := by
    rw [List.length_rightpad]
    omega
  obtain ⟨search', hfill, hfilled⟩ := search.fill_eq 0 (pattern.rightpad 1024 0) (by omega)
  have hpattern := spellsAt_filled hfilled hargs.proper (by omega) (by omega)
  have hresolve := resolve_named image.fs (CharBuf.literal_spellsAt (w := asciiText ".") (by decide)).spells
    (by decide)
  rw [hdot, Option.bind_some, driverOfType, if_pos htype, Option.map_some] at hresolve
  have hopen := answer_open_first (v := v) hfiles hresolve
  have hstart : GrepLoop image.fs pattern v.output TOTAL_NUM_DIR (buf, 0)
      { v with files := v.files.hold 2 ⟨.dir, dot.inodeIdx, 0⟩ } := by
    refine ⟨hbuf, fun j hj => ?_, 0, [], [],
      ⟨⟨dot.inodeIdx, SlotMap.hold_self v.files 2 ⟨.dir, dot.inodeIdx, 0⟩⟩, Nat.zero_le _⟩, rfl, rfl,
      Nat.zero_add _, .nil, (List.append_nil _).symm⟩
    exact (SlotMap.hold_of_ne _ hj _).trans (congrFun hfiles j)
  obtain ⟨status, v', hrun, hends⟩ := Dialogue.run_loop (fun v : UserView => v.answer image.fs)
    (GrepLoop image.fs pattern v.output) (GrepEnds image.fs pattern v.output)
    (fun n state v h => h.turn hpattern hne hgrep hframes hturns) hstart (lt_of_lt_of_le (by decide) hturns)
  refine ⟨status, v', ?_, hends⟩
  have hfd : (2 : UInt32) ≠ FAIL := by decide
  simp only [grepMain, runView, Dialogue.run_bind, Dialogue.run_ask, hgetargs, Option.bind_some, hfill,
    Dialogue.run_expect, ne_eq, not_true_eq_false, if_false, hopen, if_neg hfd]
  exact hrun

/-- Without a pattern `grep` ends with a message. -/
theorem run_grepMain_none {turns : ℕ} {search buf : CharBuf} {frames : ℕ → CharBuf}
    (hfiles : v.files = DescMap.initial) (hargs : Spells (toBytes v.args) []) :
    runView fs (grepMain turns search buf frames) v = some (3, v.print (asciiText "could not read argument\n")) := by
  obtain ⟨search', hfill, -⟩ := search.fill_eq 0 [] (Nat.zero_le _)
  have hput : Dialogue.run (fun v : UserView => v.answer fs) (putText "could not read argument\n") v = _ :=
    run_putText (prints_initial hfiles) _ (by decide)
  have hne : FAIL ≠ 0 := by decide
  simp only [grepMain, runView, Dialogue.run_bind, Dialogue.run_ask, answer_getargs hargs, if_true, Option.bind_some,
    hfill, Dialogue.run_expect, if_pos hne, hput, Dialogue.run_pure]

end UserView

section Started

variable {disk : Disk} {k k' : Kernel} {live : Fin 3 → List Slot} {command : Bytes} {frame : ExecFrame}

/-- Whatever ticks and whole calls of other processes come between its calls, `grep` goes through the files of the
directory one behind the other: it ends, stays inside its buffers whatever the files hold, and of a file without NULs
it prints, behind the name of the file, exactly the lines in which the pattern is found, a line of more than 1024
bytes in pieces of 1024. The byte behind the 1024 that are read, which nothing sets before it is tested, is taken
not to be a newline. -/
theorem execute_grep (image : Image) (hdisk : disk.fs = image.fs) (h : Booted k live)
    (hexec : k.execute disk.fs (some command) frame = some k') (hne : keptLetters command ≠ [])
    (hfits : (keptLetters command).length ≤ MAX_FILENAME) {dot : Dentry}
    (hdot : disk.fs.entryNamed (asciiText ".") = some dot) (htype : dot.fileType = 1)
    (hgrep : ∀ name ∈ disk.fs.listing, visible name = true → Greppable disk.fs name)
    (search buf : CharBuf) (frames : ℕ → CharBuf) (hsearch : search.size = BUFSIZE) (hbuf : buf.size = 33)
    (hframes : ∀ n, (frames n).size = BUFSIZE + 1 ∧ (frames n).byte BUFSIZE ≠ NEWLINE) {turns : ℕ}
    (hturns : 4294967296 ≤ turns) (input : List (List UInt8)) (output : List UInt8) :
    ∃ p, k'.caller = some p ∧ (grepMain turns search buf frames).Ensures (UserSession.answers disk p)
      (fun status s => UserView.GrepEnds disk.fs (keptLetters command) output status (s.view p))
      ⟨k', input, output⟩ := by
  obtain ⟨p, hrunning, hview⟩ := execute_view h hexec input output
  have hspells : Spells (toBytes ((keptLetters command).rightpad (MAX_FILENAME + 1) 0)) (keptLetters command) := by
    rw [toBytes_rightpad]
    exact spells_toBytes (zero_notMem_keptLetters command)
  rw [hdisk] at hdot hgrep
  obtain ⟨status, v', hrun, hends⟩ := UserView.run_grepMain image
    (v := ⟨.initial, (keptLetters command).rightpad (MAX_FILENAME + 1) 0, input, output⟩) rfl hspells hfits hne hdot
    htype hgrep hsearch hbuf hframes hturns
  rw [← hdisk, ← hview] at hrun
  rw [← hdisk] at hends
  refine ⟨p, hrunning.caller, (program_view hrunning hrun).mono ?_⟩
  rintro status' s ⟨rfl, rfl, -⟩
  exact hends

/-- The bytes of an image with the executable `shell`, the entry `.` and the text `notes` of two lines. -/
def notesImageBytes : List (UInt32 × UInt8) :=
  [(0x10000, 3), (0x10004, 2), (0x10008, 2),
   (0x10040, 0x73), (0x10041, 0x68), (0x10042, 0x65), (0x10043, 0x6C), (0x10044, 0x6C), (0x10060, 2),
   (0x10080, 0x2E), (0x100A0, 1),
   (0x100C0, 0x6E), (0x100C1, 0x6F), (0x100C2, 0x74), (0x100C3, 0x65), (0x100C4, 0x73), (0x100E0, 2), (0x100E4, 1),
   (0x11000, 28), (0x12000, 8), (0x12004, 1),
   (0x13000, 0x7F), (0x13001, 0x45), (0x13002, 0x4C), (0x13003, 0x46), (0x1301A, 0x04),
   (0x14000, 0x6F), (0x14001, 0x6E), (0x14002, 0x65), (0x14003, 0x0A),
   (0x14004, 0x74), (0x14005, 0x77), (0x14006, 0x6F), (0x14007, 0x0A)]

/-- Memory with that image and zeros elsewhere. -/
def notesMem (a : UInt32) : UInt8 := (notesImageBytes.lookup a).getD 0

/-- The inodes of that image. -/
theorem notesMem_inode {inode : UInt32} (h : inode < (fileSystemInit notesMem 0x10000).inodeSize) :
    inode = 0 ∨ inode = 1 := by
  have hsize : (fileSystemInit notesMem 0x10000).inodeSize = 2 := by decide
  rw [hsize] at h
  have hlt : inode.toNat < 2 := h
  rcases (show inode.toNat = 0 ∨ inode.toNat = 1 by omega) with hzero | hone
  · exact .inl (UInt32.toNat_inj.mp hzero)
  · exact .inr (UInt32.toNat_inj.mp hone)

/-- The image with the text is well-formed. -/
def notesImage : Image where
  mem := notesMem
  base := 0x10000
  fits := by decide
  base_pos := imageBase_pos
  length_le inode h := by
    rcases notesMem_inode h with rfl | rfl <;> decide
  block_lt inode h b hb := by
    have hlength : ((fileSystemInit notesMem 0x10000).fileLength inode).toNat ≤ 28 := by
      rcases notesMem_inode h with rfl | rfl <;> decide
    obtain rfl : b = 0 := by
      unfold DATA_BLOCK_SIZE at hb
      omega
    rcases notesMem_inode h with rfl | rfl <;> decide
  inode_lt := by decide +kernel

/-- The disk with that image. -/
def notesDisk : Disk where
  fs := notesImage.fs
  shellLoads _ := rfl

/-- The machine that boots from it. -/
def notesMachine : Kernel := boot notesDisk (fun _ => Pcb.zeroed) (fun _ _ => 0) zeroFrame

/-- `"grep tw"` with the executable of the image under the name of the program. -/
def grepCommand : Bytes := toBytes (shellName ++ asciiText " tw")

/-- Every file of that disk can be gone through. -/
theorem notesDisk_greppable : ∀ name ∈ notesDisk.fs.listing, visible name = true → Greppable notesDisk.fs name := by
  have hlisting : notesDisk.fs.listing = [shellName, asciiText ".", asciiText "notes"] := by decide +kernel
  have hshell : notesDisk.fs.entryNamed shellName = some (notesDisk.fs.dirEntry 0) := by decide +kernel
  have hnotes : notesDisk.fs.entryNamed (asciiText "notes") = some (notesDisk.fs.dirEntry 2) := by decide +kernel
  rw [hlisting]
  intro name hname hvisible
  simp only [List.mem_cons, List.not_mem_nil, or_false] at hname
  rcases hname with rfl | rfl | rfl
  · exact ⟨_, hshell, .inr (by decide +kernel)⟩
  · exact absurd hvisible (by decide)
  · exact ⟨_, hnotes, .inr (by decide +kernel)⟩

/-- On that machine `grep` ends with 0, and of the two lines of the text it prints the second. -/
theorem execute_grep_notes : ∃ k' p, notesMachine.execute notesDisk.fs (some grepCommand) zeroFrame = some k' ∧
    k'.caller = some p ∧
    (grepMain 4294967296 (zeroBuf 1024) (zeroBuf 33) fun _ => zeroBuf 1025).Ensures (UserSession.answers notesDisk p)
      (fun status s => status = 0 ∧ ∃ out, s.output = out ++ asciiText "notes:two\n") ⟨k', [], []⟩ := by
  have hsome : (notesMachine.execute notesDisk.fs (some grepCommand) zeroFrame).isSome :=
    Kernel.execute_isSome.mpr ⟨by decide +kernel, 1, by decide +kernel⟩
  obtain ⟨k', hexec⟩ := Option.isSome_iff_exists.mp hsome
  have hkept : keptLetters grepCommand = asciiText "tw" := by decide +kernel
  have hdot : notesDisk.fs.entryNamed (asciiText ".") = some (notesDisk.fs.dirEntry 1) := by decide +kernel
  have hnotes : notesDisk.fs.entryNamed (asciiText "notes") = some (notesDisk.fs.dirEntry 2) := by decide +kernel
  have hcontent : notesDisk.fs.fileContent (notesDisk.fs.dirEntry 2).inodeIdx = asciiText "one\ntwo\n" := by
    decide +kernel
  have hvisible : notesDisk.fs.listing.filter visible = [shellName, asciiText "notes"] := by decide +kernel
  obtain ⟨p, hcaller, hgrep⟩ := execute_grep notesImage rfl booted_boot hexec (by rw [hkept]; decide)
    (by rw [hkept]; decide) hdot (by decide +kernel) notesDisk_greppable (zeroBuf 1024) (zeroBuf 33)
    (fun _ => zeroBuf 1025) rfl rfl (fun _ => ⟨rfl, by decide⟩) (le_refl _) [] []
  refine ⟨k', p, hexec, hcaller, hgrep.mono ?_⟩
  rintro status s ⟨outs, houts, hcomplete, -⟩
  rw [hvisible, hkept] at houts
  obtain ⟨hstatus, houtput⟩ := hcomplete (by decide +kernel)
  cases houts with
  | cons hshell hrest =>
    rename_i out outs
    cases hrest with
    | cons hnotes' hnil =>
      rename_i out' outs
      cases hnil
      refine ⟨hstatus, out, ?_⟩
      have htext := (hnotes' _ hnotes).2 (by decide +kernel) (by rw [hcontent]; decide)
      rw [hcontent] at htext
      have hprinted : grepText (asciiText "tw") (asciiText "notes") (asciiText "one\ntwo\n") =
          asciiText "notes:two\n" := by
        decide +kernel
      rw [hprinted] at htext
      refine Eq.trans houtput ?_
      rw [htext, List.nil_append, List.flatten_cons, List.flatten_singleton]

end Started

end OsKernel
