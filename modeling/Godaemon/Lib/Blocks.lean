import Mathlib.Algebra.BigOperators.Group.List.Basic
import Mathlib.Algebra.Order.Ring.Int

set_option autoImplicit true

/-! Blocks of given sizes, laid out one after the other and found by their keys. -/
namespace Blocks

variable [DecidableEq K] {key : β → K} {size : β → Int}

def total (size : β → Int) (blocks : List β) : Int := (blocks.map size).sum

/-- Where the first block with a key starts. -/
def start (key : β → K) (size : β → Int) : List β → K → Int
  | [], _ => 0
  | b :: blocks, k => if key b = k then 0 else size b + start key size blocks k

@[simp] theorem total_nil : total size [] = 0 := rfl

@[simp] theorem total_cons : total size (b :: blocks) = size b + total size blocks := rfl

theorem start_cons_self : start key size (b :: blocks) (key b) = 0 := if_pos rfl

theorem start_cons_ne (h : key b ≠ k) :
    start key size (b :: blocks) k = size b + start key size blocks k := if_neg h

theorem total_nonneg (h : ∀ b ∈ blocks, 0 ≤ size b) : 0 ≤ total size blocks := by
  induction blocks with
  | nil => exact Int.le_refl 0
  | cons b blocks ih =>
    have hb := h b List.mem_cons_self
    have hblocks := ih (fun c hc => h c (List.mem_cons_of_mem _ hc))
    rw [total_cons]
    omega

theorem start_nonneg (h : ∀ b ∈ blocks, 0 ≤ size b) : 0 ≤ start key size blocks k := by
  induction blocks with
  | nil => exact Int.le_refl 0
  | cons b blocks ih =>
    have hb := h b List.mem_cons_self
    have hblocks := ih (fun c hc => h c (List.mem_cons_of_mem _ hc))
    unfold start
    split
    · exact Int.le_refl 0
    · omega

theorem start_add_le (h : ∀ b ∈ blocks, 0 ≤ size b) (hkeys : (blocks.map key).Nodup)
    (hb : b ∈ blocks) : start key size blocks (key b) + size b ≤ total size blocks := by
  induction blocks with
  | nil => cases hb
  | cons c blocks ih =>
    have htail : ∀ d ∈ blocks, 0 ≤ size d := fun d hd => h d (List.mem_cons_of_mem _ hd)
    obtain ⟨hc, hkeys⟩ := List.nodup_cons.1 hkeys
    rw [total_cons]
    rcases List.mem_cons.1 hb with rfl | hb
    · have hrest := total_nonneg htail
      rw [start_cons_self]
      omega
    · have hne : key c ≠ key b := by
        intro he
        exact hc (he ▸ List.mem_map_of_mem hb)
      have hrest := ih htail hkeys hb
      rw [start_cons_ne hne]
      omega

theorem start_add_le_or (h : ∀ b ∈ blocks, 0 ≤ size b) (hkeys : (blocks.map key).Nodup)
    (hb : b ∈ blocks) (hc : c ∈ blocks) (hne : b ≠ c) :
    start key size blocks (key b) + size b ≤ start key size blocks (key c) ∨
      start key size blocks (key c) + size c ≤ start key size blocks (key b) := by
  induction blocks with
  | nil => cases hb
  | cons d blocks ih =>
    have htail : ∀ e ∈ blocks, 0 ≤ size e := fun e he => h e (List.mem_cons_of_mem _ he)
    obtain ⟨hd, hkeys⟩ := List.nodup_cons.1 hkeys
    have hfirst {e : β} (he : e ∈ blocks) : key d ≠ key e := by
      intro hk
      exact hd (hk ▸ List.mem_map_of_mem he)
    rcases List.mem_cons.1 hb with rfl | hb
    · rcases List.mem_cons.1 hc with rfl | hc
      · exact absurd rfl hne
      · have hrest : 0 ≤ start key size blocks (key c) := start_nonneg htail
        rw [start_cons_self, start_cons_ne (hfirst hc)]
        omega
    · rw [start_cons_ne (hfirst hb)]
      rcases List.mem_cons.1 hc with rfl | hc
      · have hrest : 0 ≤ start key size blocks (key b) := start_nonneg htail
        rw [start_cons_self]
        omega
      · rw [start_cons_ne (hfirst hc)]
        have hrest := ih htail hkeys hb hc
        omega

end Blocks
