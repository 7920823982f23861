import VRAdmin.Native.SystemCall

/-! # The output of a command

`fgets` cuts the output at newlines and after 1023 bytes. The pieces follow each other
without a gap, so a loop that appends them appends the output, as long as no NUL byte
hides the end of a piece from `strlen`.
-/

namespace VRAdmin

open Foundation

theorem fgets_append {size : Nat} {stream line rest : Bytes}
    (h : fgets size stream = some (line, rest)) : line ++ rest = stream := by
  unfold fgets at h
  split at h
  · cases h
  · obtain ⟨rfl, rfl⟩ := Prod.mk.inj (Option.some.inj h)
    exact List.take_append_drop _ stream

theorem fgets_eq_none {size : Nat} {stream : Bytes} (h : fgets size stream = none) :
    stream = [] := by
  unfold fgets at h
  split at h
  · assumption
  · cases h

/-- The loop appends the whole stream and adds its length, in `int`. The induction is
on the stream that is left. -/
theorem readLines_eq {stream : Bytes} (hnul : (0 : UInt8) ∉ stream) (result : String8)
    (sum : Int32) :
    readLines stream result sum = (sum + Int32.ofNat stream.length, result ++ stream) := by
  induction stream, result, sum using readLines.induct with
  | case1 stream result sum hend =>
      have hnil := fgets_eq_none hend
      subst hnil
      rw [readLines]
      simp [fgets]
  | case2 stream result sum line rest hline text ih =>
      have hsplit := fgets_append hline
      have htext : text = line :=
        cstr_eq_self fun h => hnul (hsplit ▸ List.mem_append_left rest h)
      have hrest := ih fun h => hnul (hsplit ▸ List.mem_append_right line h)
      have hcount : Int32.ofNat stream.length =
          Int32.ofNat line.length + Int32.ofNat rest.length := by
        rw [← hsplit, List.length_append, Int32.ofNat_add]
      rw [readLines, hline]
      dsimp only
      rw [hrest, hcount, htext, Int32.add_assoc,
        List.append_assoc, hsplit]

theorem systemCall_output {σ : Type} {popen : Popen σ} {s s' : σ} {cmd result output : Bytes}
    (hperm : checkSyscallPerm (some cmd) = true) (hrun : popen s (cstr cmd) = (s', some output))
    (hnul : (0 : UInt8) ∉ output) (hlen : output.length < 2 ^ 31) :
    ∃ sum, systemCall popen s cmd result = ((s', sum, result ++ output), [cstr cmd]) ∧
      sum.toInt = output.length := by
  refine ⟨Int32.ofNat output.length, ?_, Int32.toInt_ofNat_of_lt hlen⟩
  unfold systemCall
  rw [hperm]
  simp only [Bool.not_true, Bool.false_eq_true, if_false, hrun, readLines_eq hnul, Int32.zero_add]

/-- Two lines, the second without its newline, behind an old result. -/
theorem systemCall_output_lines :
    ∃ sum, systemCall (fun s _ => (s, some (ascii "a
bc"))) () (ascii "dfu-util -l") (ascii "x") =
        (((), sum, ascii "xa
bc"), [ascii "dfu-util -l"]) ∧ sum.toInt = 4 :=
  systemCall_output (by decide) rfl (by decide) (by decide)

end VRAdmin
