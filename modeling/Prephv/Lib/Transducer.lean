import Mathlib.Data.List.Basic

/-!
# Lib — Transducer

Machines that read symbols one at a time and put out words: `step s a` is what the machine puts out
when it reads `a` in the state `s`, and the state it is in then.

`run` is the machine on a list of symbols.  `poll` is the machine as a caller drives it, who asks
for at most `room` symbols and takes what there is: the input is a list of answers, and `sym` gives
the symbol of an answer, or `none` where the answer is that nothing is there yet.  A call stops at
such an answer, which is used up, or when its room is filled; what the machine knows is kept for the
next call.

However the calls are cut and wherever the gaps are, the calls together put out what `run` does on
the symbols they used (`polls_spec`), and enough calls use up everything (`polls_drains`).
-/

set_option autoImplicit false

namespace Transducer

variable {σ α β ι : Type} (step : σ → α → List β × σ) (sym : ι → Option α)

/-- The machine on the symbols, one after the other. -/
def run : σ → List α → List β × σ
  | s, [] => ([], s)
  | s, a :: as => ((step s a).1 ++ (run (step s a).2 as).1, (run (step s a).2 as).2)

/-- One call with `room`: what it puts out, the state after it, and the input that is left. -/
def poll : Nat → σ → List ι → List β × σ × List ι
  | _, s, [] => ([], s, [])
  | 0, s, input => ([], s, input)
  | room + 1, s, i :: input =>
    match sym i with
    | none => ([], s, input)
    | some a =>
      let (out, s) := step s a
      let (outs, s, rest) := poll (room + 1 - out.length) s input
      (out ++ outs, s, rest)

/-- A call after the other, each with its room. -/
def polls : List Nat → σ → List ι → List β × σ × List ι
  | [], s, input => ([], s, input)
  | room :: rooms, s, input =>
    let (out, s, input) := poll step sym room s input
    let (outs, s, rest) := polls rooms s input
    (out ++ outs, s, rest)

@[simp] theorem run_nil (s : σ) : run step s [] = ([], s) := rfl

@[simp] theorem run_cons (s : σ) (a : α) (as : List α) : run step s (a :: as) =
    ((step s a).1 ++ (run step (step s a).2 as).1, (run step (step s a).2 as).2) := rfl

theorem run_append (s : σ) (as bs : List α) : run step s (as ++ bs) =
    ((run step s as).1 ++ (run step (run step s as).2 bs).1,
      (run step (run step s as).2 bs).2) := by
  induction as generalizing s with
  | nil => simp
  | cons a as ih => simp [ih]

variable {sym}

theorem poll_none {i : ι} (hi : sym i = none) (room : Nat) (s : σ) (input : List ι) :
    poll step sym (room + 1) s (i :: input) = ([], s, input) := by
  rw [poll, hi]

theorem poll_some {i : ι} {a : α} (hi : sym i = some a) (room : Nat) (s : σ) (input : List ι) :
    poll step sym (room + 1) s (i :: input) =
      ((step s a).1 ++ (poll step sym (room + 1 - (step s a).1.length) (step s a).2 input).1,
        (poll step sym (room + 1 - (step s a).1.length) (step s a).2 input).2) := by
  rw [poll, hi]

variable (sym)

/-- A result of `poll` or `polls` puts out what the machine does on the symbols that were used. -/
def Uses (s : σ) (input : List ι) (r : List β × σ × List ι) : Prop :=
  ∃ used, input = used ++ r.2.2 ∧ run step s (used.filterMap sym) = (r.1, r.2.1)

theorem poll_spec (room : Nat) (s : σ) (input : List ι) :
    Uses step sym s input (poll step sym room s input) := by
  induction input generalizing room s with
  | nil => exact ⟨[], by cases room <;> rfl, by cases room <;> rfl⟩
  | cons i input ih =>
    cases room with
    | zero => exact ⟨[], rfl, rfl⟩
    | succ room =>
      cases hi : sym i with
      | none =>
        rw [poll_none step hi]
        refine ⟨[i], rfl, ?_⟩
        rw [List.filterMap_cons_none hi]
        rfl
      | some a =>
        obtain ⟨used, hinput, hrun⟩ := ih (room + 1 - (step s a).1.length) (step s a).2
        rw [poll_some step hi]
        refine ⟨i :: used, congrArg (i :: ·) hinput, ?_⟩
        rw [List.filterMap_cons_some hi, run_cons, hrun]

/-- **Any calls.**  What the calls put out is what the machine does on the symbols they used. -/
theorem polls_spec (rooms : List Nat) (s : σ) (input : List ι) :
    Uses step sym s input (polls step sym rooms s input) := by
  induction rooms generalizing s input with
  | nil => exact ⟨[], rfl, rfl⟩
  | cons room rooms ih =>
    obtain ⟨used, hinput, hrun⟩ := poll_spec step sym room s input
    obtain ⟨used', hinput', hrun'⟩ :=
      ih (poll step sym room s input).2.1 (poll step sym room s input).2.2
    refine ⟨used ++ used', ?_, ?_⟩
    · rw [List.append_assoc]
      exact hinput.trans (congrArg (used ++ ·) hinput')
    · rw [List.filterMap_append, run_append, hrun, hrun']
      rfl

/-- A machine that puts out at most one symbol a step does not overrun the room. -/
theorem poll_length (hone : ∀ s a, (step s a).1.length ≤ 1) (room : Nat) (s : σ)
    (input : List ι) : (poll step sym room s input).1.length ≤ room := by
  induction input generalizing room s with
  | nil => cases room <;> exact Nat.zero_le _
  | cons i input ih =>
    cases room with
    | zero => exact Nat.zero_le _
    | succ room =>
      cases hi : sym i with
      | none =>
        rw [poll_none step hi]
        exact Nat.zero_le _
      | some a =>
        have hout := hone s a
        have hrest := ih (room + 1 - (step s a).1.length) (step s a).2
        rw [poll_some step hi, List.length_append]
        omega

/-- A call that has room uses something, where something is there. -/
theorem poll_uses {room : Nat} (hroom : room ≠ 0) (s : σ) (i : ι) (input : List ι) :
    (poll step sym room s (i :: input)).2.2.length ≤ input.length := by
  obtain ⟨room, rfl⟩ := Nat.exists_eq_succ_of_ne_zero hroom
  cases hi : sym i with
  | none => exact Nat.le_of_eq (by rw [poll_none step hi])
  | some a =>
    obtain ⟨used, hinput, -⟩ :=
      poll_spec step sym (room + 1 - (step s a).1.length) (step s a).2 input
    have hlen := congrArg List.length hinput
    rw [List.length_append] at hlen
    rw [poll_some step hi]
    dsimp only
    omega

/-- As many calls with room as there are answers use up all of them. -/
theorem polls_drains {rooms : List Nat} (hrooms : ∀ room ∈ rooms, room ≠ 0) (s : σ)
    {input : List ι} (hlen : input.length ≤ rooms.length) :
    (polls step sym rooms s input).2.2 = [] := by
  induction rooms generalizing s input with
  | nil => exact List.length_eq_zero_iff.mp (Nat.le_zero.mp hlen)
  | cons room rooms ih =>
    refine ih (fun room hroom => hrooms room (List.mem_cons_of_mem _ hroom)) _ ?_
    cases input with
    | nil => cases room <;> exact Nat.zero_le _
    | cons i input =>
      have huse := poll_uses step sym (hrooms room List.mem_cons_self) s i input
      exact Nat.le_trans huse (Nat.le_of_succ_le_succ hlen)

end Transducer
