import Heterodyne.Count
import Heterodyne.Table
/-!
# Spectral window names

A spectral window is a whole subsystem or one of its subbands. Windows are ordered by subsystem,
and within one the whole subsystem comes before its subbands.

* `rank_lt_iff`: the order of the windows' ranks is that order.
-/

namespace Heterodyne

/-- A subsystem, counted from one, or a subband of it, counted from one. -/
structure WindowId where
  subsystem : UInt32
  subband : Option UInt32
deriving DecidableEq

namespace WindowId

/-- The window of a whole subsystem. -/
def ofSubsystem (n : UInt32) : WindowId := ⟨n, none⟩

/-- The window of a subband. -/
def ofSubband (n k : UInt32) : WindowId := ⟨n, some k⟩

/-- The place among the windows of one subsystem. -/
def position (id : WindowId) : Nat :=
  match id.subband with
  | none => 0
  | some k => k.toNat + 1

/-- A position within a subsystem has thirty-three bits. -/
theorem position_lt (id : WindowId) : id.position < 1 <<< 33 := by
  unfold position
  split
  · decide
  · rename_i k _
    have := k.toNat_lt
    omega

instance : Ranked WindowId where
  rank id := id.subsystem.toNat <<< 33 + id.position
  rank_injective := by
    intro a b h
    have ha := a.position_lt
    have hb := b.position_lt
    have hs : a.subsystem.toNat = b.subsystem.toNat := by omega
    have hp : a.position = b.position := by omega
    obtain ⟨m, j⟩ := a
    obtain ⟨n, k⟩ := b
    have hmn : m = n := UInt32.toNat_inj.1 hs
    subst hmn
    cases j <;> cases k <;> simp [position] at hp ⊢
    exact UInt32.toNat_inj.1 hp

/-- Windows are ranked by subsystem and then by position. -/
theorem rank_lt_iff (a b : WindowId) :
    Ranked.rank a < Ranked.rank b ↔
      a.subsystem.toNat < b.subsystem.toNat ∨
        (a.subsystem = b.subsystem ∧ a.position < b.position) := by
  have ha := a.position_lt
  have hb := b.position_lt
  rw [← UInt32.toNat_inj]
  change a.subsystem.toNat <<< 33 + a.position < b.subsystem.toNat <<< 33 + b.position ↔ _
  omega

/-- The printed name of a window: `SPW1`, or `SPW1.2` for a subband. -/
def name (id : WindowId) : String :=
  match id.subband with
  | none => "SPW" ++ Count.text id.subsystem
  | some k => "SPW" ++ Count.text id.subsystem ++ "." ++ Count.text k

end WindowId

end Heterodyne
