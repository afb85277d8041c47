import Mathlib.Logic.Function.Basic
import Prephv.Lib.Words

/-!
# Lib — Window

Text that is written through a cursor into a bounded part of a memory.  The cursor goes on whether
there is room or not.

`Holds` says what a writer has written so far: the text, as far as there is room, and nothing
outside.  Writing one element (`Holds.put`) and writing a text (`Holds.emit`) keep it.
-/

set_option autoImplicit false

namespace Window

variable {w : Nat} {β : Type}

/-- The memory, and the cursor. -/
structure Out (w : Nat) (β : Type) where
  mem : BitVec w → β
  str : BitVec w

/-- One element is written, if the cursor is before the end. -/
def put (end_ : BitVec w) (b : β) (o : Out w β) : Out w β where
  mem := if o.str < end_ then Function.update o.mem o.str b else o.mem
  str := o.str + 1

/-- A text is written. -/
def emit (end_ : BitVec w) (bs : List β) (o : Out w β) : Out w β :=
  bs.foldl (fun o b => put end_ b o) o

variable {end_ : BitVec w} {o : Out w β}

@[simp] theorem emit_nil : emit end_ [] o = o := rfl

@[simp] theorem emit_cons (b : β) (bs : List β) :
    emit end_ (b :: bs) o = emit end_ bs (put end_ b o) := rfl

theorem emit_append (bs cs : List β) :
    emit end_ (bs ++ cs) o = emit end_ cs (emit end_ bs o) := List.foldl_append

/-- `text` has been written from `buf` on, over the memory `mem`. -/
structure Holds (mem : BitVec w → β) (buf end_ : BitVec w) (text : List β) (o : Out w β) :
    Prop where
  str : o.str.toNat = buf.toNat + text.length
  content : ∀ a : BitVec w, buf.toNat ≤ a.toNat → a.toNat < buf.toNat + text.length →
    a.toNat < end_.toNat → text[a.toNat - buf.toNat]? = some (o.mem a)
  frame : ∀ a : BitVec w, a.toNat < buf.toNat ∨ end_.toNat ≤ a.toNat ∨
    buf.toNat + text.length ≤ a.toNat → o.mem a = mem a

variable {mem : BitVec w → β} {buf : BitVec w} {text : List β}

theorem Holds.start (mem : BitVec w → β) (buf end_ : BitVec w) :
    Holds mem buf end_ [] ⟨mem, buf⟩ where
  str := rfl
  content _ hle hlt := absurd hlt (Nat.not_lt.mpr hle)
  frame _ _ := rfl

/-- An address that a place is not written to. -/
theorem update_ne {a p : BitVec w} {b : β} (m : BitVec w → β) (h : a.toNat ≠ p.toNat) :
    Function.update m p b a = m a := Function.update_of_ne (fun heq => h (congrArg _ heq)) b m

theorem Holds.put (h : Holds mem buf end_ text o) (b : β)
    (hfit : buf.toNat + text.length + 1 < 2 ^ w) :
    Holds mem buf end_ (text ++ [b]) (put end_ b o) where
  str := by
    rw [Window.put, Words.succ_toNat (by rw [h.str]; exact hfit), h.str, List.length_append,
      List.length_singleton, Nat.add_assoc]
  content a hle hlt hend := by
    have hstr := h.str
    rw [List.length_append, List.length_singleton] at hlt
    show _ = some ((if o.str < end_ then Function.update o.mem o.str b else o.mem) a)
    by_cases hlast : a.toNat = o.str.toNat
    · have ha : a = o.str := BitVec.eq_of_toNat_eq hlast
      have hin : o.str < end_ := by
        rw [BitVec.lt_def]
        omega
      have hidx : a.toNat - buf.toNat = text.length := by omega
      rw [if_pos hin, hidx, List.getElem?_concat_length, ha, Function.update_self]
    · rw [List.getElem?_append_left (by omega), h.content a hle (by omega) hend]
      split
      · rw [update_ne _ hlast]
      · rfl
  frame a ha := by
    have hstr := h.str
    rw [List.length_append, List.length_singleton] at ha
    show (if o.str < end_ then Function.update o.mem o.str b else o.mem) a = mem a
    split
    · next hin =>
      rw [BitVec.lt_def] at hin
      rw [update_ne _ (by omega), h.frame a (by omega)]
    · exact h.frame a (by omega)

theorem Holds.emit (h : Holds mem buf end_ text o) (bs : List β)
    (hfit : buf.toNat + (text ++ bs).length < 2 ^ w) :
    Holds mem buf end_ (text ++ bs) (emit end_ bs o) := by
  induction bs generalizing text o with
  | nil => rwa [List.append_nil]
  | cons b bs ih =>
    have hlen : (text ++ [b] ++ bs).length = (text ++ b :: bs).length := by simp
    have hput := h.put b (by simp only [List.length_append, List.length_cons] at hfit; omega)
    have hrest := ih hput (hlen ▸ hfit)
    rwa [List.append_assoc, List.singleton_append] at hrest

end Window
