import VRAdmin.Foundation.ShellLine
import VRAdmin.Native.Permission

/-! # Running a command for a client

`systemCall` hands the whole command line to the shell once its first bytes have
passed the check, and collects the output line by line. What the command does to
the rest of the system is a parameter.
-/

namespace VRAdmin

open Foundation Foundation.ShellLine

/-- The bytes that `fgets` with room for `n` takes: up to and with a newline. -/
def lineLength : Nat → Bytes → Nat
  | 0, _ => 0
  | _, [] => 0
  | n + 1, b :: rest => if b = 10 then 1 else lineLength n rest + 1

/-- `fgets(line, size, fp)`: the line and the rest of the stream, or `NULL`. -/
def fgets (size : Nat) (stream : Bytes) : Option (Bytes × Bytes) :=
  if stream = [] then none
  else
    let n := lineLength (size - 1) stream
    some (stream.take n, stream.drop n)

theorem lineLength_pos {n : Nat} (hn : 0 < n) {stream : Bytes} (h : stream ≠ []) :
    0 < lineLength n stream := by
  cases n with
  | zero => omega
  | succ n =>
      cases stream with
      | nil => exact (h rfl).elim
      | cons b rest =>
          rw [lineLength]
          split <;> omega

theorem fgets_shorter {size : Nat} (hsize : 1 < size) {stream line rest : Bytes}
    (h : fgets size stream = some (line, rest)) : rest.length < stream.length := by
  unfold fgets at h
  split at h
  · cases h
  · next hne =>
      have hpos := lineLength_pos (show 0 < size - 1 by omega) hne
      have hlen := List.length_pos_iff.mpr hne
      obtain ⟨-, rfl⟩ := Prod.mk.inj (Option.some.inj h)
      rw [List.length_drop]
      omega

/-- The loop `while ((fgets(line, 1024, fp)) != NULL)`. -/
def readLines (stream : Bytes) (result : String8) (sum : Int32) : Int32 × String8 :=
  match _h : fgets 1024 stream with
  | none => (sum, result)
  | some (line, rest) =>
      let text := cstr line
      readLines rest (result ++ text) (sum + Int32.ofNat text.length)
termination_by stream.length
decreasing_by exact fgets_shorter (by decide) _h

/-- `popen(line, "r")` on a system: its state when the command has ended, and the
command's output unless it could not be started. -/
abbrev Popen (σ : Type) := σ → Bytes → σ × Option Bytes

section Calls

variable {σ : Type}

/-- The result of the call, and the lines given to `popen`. -/
def systemCall (popen : Popen σ) (s : σ) (cmd result : String8) :
    (σ × Int32 × String8) × List Bytes :=
  if !checkSyscallPerm (some cmd) then ((s, -1, result), [])
  else
    let line := cstr cmd
    match popen s line with
    | (s', none) => ((s', -1, result), [line])
    | (s', some stream) => ((s', readLines stream result 0), [line])

theorem systemCall_popen (popen : Popen σ) (s : σ) (cmd result : String8) :
    (systemCall popen s cmd result).2 =
      if ∃ temp ∈ gSysCallCommands, temp <+: cstr cmd then [cstr cmd] else [] := by
  unfold systemCall
  by_cases hperm : ∃ temp ∈ gSysCallCommands, temp <+: cstr cmd
  · have hpassed := (checkSyscallPerm_iff cmd).mpr hperm
    simp only [hpassed, Bool.not_true, Bool.false_eq_true, if_false, if_pos hperm]
    obtain ⟨s', output⟩ := popen s (cstr cmd)
    cases output with
    | none => rfl
    | some stream => rfl
  · have hrefused : checkSyscallPerm (some cmd) = false := by
      rwa [← Bool.not_eq_true, checkSyscallPerm_iff]
    rw [if_neg hperm, hrefused]
    rfl

end Calls

/-! ## What the check means for the shell -/

/-- `dfu-util`, or `service call`. -/
def Allowed : Command → Prop
  | .words command =>
      command.head? = some (wordOf (ascii "dfu-util")) ∨
        command.take 2 = [wordOf (ascii "service"), wordOf (ascii "call")]
  | .unread => False

instance (c : Command) : Decidable (Allowed c) :=
  match c with
  | .words _ => inferInstanceAs (Decidable (_ ∨ _))
  | .unread => inferInstanceAs (Decidable False)

/-- The check made word by word: a command passes when it begins with the words of
an entry of the list. -/
def PassesByWords : Command → Prop
  | .words command => ∃ temp ∈ gSysCallCommands, (temp.splitOn 32).map wordOf <+: command
  | .unread => False

theorem passesByWords_iff (c : Command) : PassesByWords c ↔ Allowed c := by
  have hdfu : ((ascii "dfu-util").splitOn 32).map wordOf = [wordOf (ascii "dfu-util")] := by
    decide +kernel
  have hservice : ((ascii "service call").splitOn 32).map wordOf =
      [wordOf (ascii "service"), wordOf (ascii "call")] := by
    decide +kernel
  cases c with
  | unread => exact Iff.rfl
  | words command =>
      simp only [PassesByWords, Allowed, gSysCallCommands, List.mem_cons, List.not_mem_nil,
        or_false, exists_eq_or_imp, exists_eq_left, hdfu, hservice]
      apply or_congr
      · cases command with
        | nil => simp
        | cons w rest => simp [List.cons_prefix_cons, eq_comm]
      · rw [List.prefix_iff_eq_take, eq_comm]
        rfl

theorem allowed_dfu_util (joined : Word) (more : List Word) :
    Allowed (.words ((wordOf (ascii "dfu-util") ++ joined) :: more)) ↔ joined = [] := by
  have hservice : wordOf (ascii "dfu-util") ++ joined ≠ wordOf (ascii "service") := by
    intro h
    have hfirst : Letter.byte 100 = Letter.byte 115 := (List.cons.inj h).1
    exact absurd hfirst (by decide)
  constructor
  · intro h
    rcases h with h | h
    · exact List.append_right_eq_self.mp (Option.some.inj h)
    · exact (hservice (List.cons.inj h).1).elim
  · intro h
    exact Or.inl (by rw [h, List.append_nil]; rfl)

theorem allowed_service_call (joined : Word) (more : List Word) :
    Allowed (.words (wordOf (ascii "service") :: (wordOf (ascii "call") ++ joined) :: more)) ↔
      joined = [] := by
  constructor
  · intro h
    rcases h with h | h
    · have hfirst : wordOf (ascii "service") = wordOf (ascii "dfu-util") := Option.some.inj h
      exact absurd hfirst (by decide)
    · have hcall := (List.cons.inj (List.cons.inj h).2).1
      exact List.append_right_eq_self.mp hcall
  · intro h
    exact Or.inr (by rw [h, List.append_nil]; rfl)

/-- A line behind a listed text runs only allowed commands exactly when the last word of
that text ends there and every command behind passes a check of its own. -/
theorem allowed_behind {temp : Bytes} (htemp : temp ∈ gSysCallCommands) (rest : Bytes) :
    (∀ c ∈ simpleCommands (temp ++ rest), Allowed c) ↔
      joinedText rest = [] ∧ ∀ c ∈ laterCommands rest, PassesByWords c := by
  have hcases : temp = ascii "dfu-util" ∨ temp = ascii "service call" := by
    simpa [gSysCallCommands] using htemp
  have hlater : (∀ c ∈ laterCommands rest, PassesByWords c) ↔
      ∀ c ∈ laterCommands rest, Allowed c :=
    forall₂_congr fun c _ => passesByWords_iff c
  rw [hlater]
  rcases hcases with rfl | rfl
  · have hstart : OrdinaryStart [] (ascii "dfu-util") := ⟨by decide +kernel, by decide⟩
    obtain ⟨more, hmore⟩ := simpleCommands_lineStart hstart rest
    have hline : lineStart [] (ascii "dfu-util") ++ rest = ascii "dfu-util" ++ rest := rfl
    rw [← hline, hmore, List.forall_mem_cons]
    exact and_congr_left fun _ => allowed_dfu_util (joinedText rest) more
  · have hstart : OrdinaryStart [ascii "service"] (ascii "call") :=
      ⟨by decide +kernel, by decide⟩
    obtain ⟨more, hmore⟩ := simpleCommands_lineStart hstart rest
    have hline : lineStart [ascii "service"] (ascii "call") ++ rest =
        ascii "service call" ++ rest := rfl
    rw [← hline, hmore, List.forall_mem_cons]
    exact and_congr_left fun _ => allowed_service_call (joinedText rest) more

example : simpleCommands (ascii "dfu-utilx $(id) 2>&1 # '") =
    [.words [wordOf (ascii "dfu-utilx"), [.byte 36, .output]], .words [wordOf (ascii "id")]] := by
  decide +kernel

/-- The text between backquotes is a line of its own. -/
example : simpleCommands [96, 97, 92, 96, 98, 92, 96, 59, 99, 96] =
    [.words [[.output]], .words [[.byte 97, .output]], .words [wordOf [99]],
      .words [wordOf [98]]] := by
  decide +kernel

end VRAdmin
