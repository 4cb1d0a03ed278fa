import SpnCore.Ledger.Keys
import SpnCore.Lib.Change
import Mathlib.Data.ZMod.Basic

/-!
# Checks of what an operation did

An invariant looks at the delta of an operation: for every entry that it touched the version before
and after, and the same for the header. A check returns a message for the first thing it finds
wrong and an empty one when it finds nothing, and it can also raise an error on the way.
-/

namespace SpnCore.Ledger

open Lib

/-- The entries of a ledger under their keys. -/
abbrev Entries := Table LedgerEntry

/-- `LedgerStateDelta::EntryDelta`, with the key it is stored under. -/
abbrev EntryDelta := Change LedgerEntry

structure HeaderDelta where
  current : LedgerHeader
  previous : LedgerHeader

/-- `LedgerStateDelta`, with the changes of entries in some container. -/
structure LedgerStateDelta (entries : Type) where
  entry : entries
  header : HeaderDelta

/-- How a check ends before its last statement. -/
inductive Stop where
  /-- It returns a message. -/
  | returns (message : String)
  | raises (error : LedgerError)
deriving DecidableEq, Repr

/-- What a check hands back. Nothing stands for the empty message. -/
def returned : Except Stop Unit → Except LedgerError (Option String)
  | .ok () => .ok none
  | .error (.returns message) => .ok (some message)
  | .error (.raises error) => .error error

theorem returned_eq_none {x : Except Stop Unit} : returned x = .ok none ↔ x = .ok () := by
  rcases x with (message | error) | ⟨⟩ <;> simp [returned]

variable {α : Type}

/-- A computation within a check. -/
def raising : Except LedgerError α → Except Stop α
  | .ok a => .ok a
  | .error error => .error (.raises error)

@[simp] theorem raising_eq_ok {x : Except LedgerError α} {a : α} :
    raising x = .ok a ↔ x = .ok a := by
  cases x <;> simp [raising]

/-- Returns the message, if there is one. -/
def report : Option String → Except Stop Unit
  | none => .ok ()
  | some message => .error (.returns message)

@[simp] theorem report_eq_ok {message : Option String} :
    report message = .ok () ↔ message = none := by
  cases message <;> simp [report]

/-! ### Sums that wrap around -/

variable {n : Nat}

theorem cast_bmod (x : Int) : ((x.bmod n : Int) : ZMod n) = x :=
  (ZMod.intCast_eq_intCast_iff' _ _ _).2 Int.bmod_emod

/-- A loop that tallies the changes of a table of changes, up to a multiple of `n`, ends with their
sum. -/
theorem foldlM_total {ε β : Type} {f : β → EntryDelta → Except ε β} {o : β → ZMod n}
    {g : EntryDelta → Int} {entry : Table EntryDelta}
    (hround : ∀ b delta c, f b delta = .ok c → o c = o b + (g delta : Int)) {b c : β}
    (h : entry.values.foldlM f b = .ok c) : o c = o b + (entry.total g : Int) := by
  have hcast := map_list_sum (Int.castAddHom (ZMod n)) (entry.values.map g)
  rw [List.map_map] at hcast
  rw [Table.total_eq_sum]
  exact (foldlM_sum (g := fun delta => ((g delta : Int) : ZMod n)) hround h).trans
    (congrArg (o b + ·) hcast.symm)

end SpnCore.Ledger
