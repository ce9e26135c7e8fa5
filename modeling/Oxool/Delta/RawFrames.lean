import Oxool.Delta.Chunks

/-!
# Compressed frames of raw blocks

Bytes that cannot be made smaller are put into frames as they are, each a block with a header that says how
long it is. A reader can tell where a frame ends, so that frames may be put one behind the other: what is
read are blocks in frames (`blocks_of_decompress`), and blocks in frames are read (`decompress_blocks`).
-/

set_option autoImplicit false

namespace Oxool.Delta.Raw

/-- A frame of one block, of at most 255 bytes: the magic number, a descriptor for a size of one byte, the
size, and the header of a block that is raw and the last. -/
def frame (x : List UInt8) : List UInt8 :=
  [0x28, 0xB5, 0x2F, 0xFD, 0x20, UInt8.ofNat x.length, UInt8.ofNat (x.length * 8 + 1),
    UInt8.ofNat ((x.length * 8 + 1) / 256), 0] ++ x

/-- Blocks, one behind the other, each in a frame. -/
def framed (blocks : List (List UInt8)) : List UInt8 := (blocks.map frame).flatten

/-- As many blocks as it takes, for at most so many more. -/
def blocks : Nat → List UInt8 → List (List UInt8)
  | 0, x => [x]
  | more + 1, x => if x.length ≤ 255 then [x] else x.take 255 :: blocks more (x.drop 255)

def compress (x : List UInt8) : Option (List UInt8) := some (framed (blocks x.length x))

/-- The block of the frame in front, if there is one. -/
def block (z : List UInt8) : List UInt8 := (z.drop 9).take (z.getD 5 0).toNat

/-- One frame after the other. -/
def decompressFrames : Nat → List UInt8 → Option (List UInt8)
  | 0, z => if z = [] then some [] else none
  | fuel + 1, z =>
    if z = [] then some []
    else if frame (block z) <+: z then
      (decompressFrames fuel (z.drop (frame (block z)).length)).map (block z ++ ·)
    else none

def decompress (z : List UInt8) : Option (List UInt8) := decompressFrames z.length z

/-! ## What is read -/

theorem frame_ne_nil (x : List UInt8) : frame x ≠ [] := List.cons_ne_nil _ _

/-- The block of a frame is known, whatever follows. -/
theorem block_frame_append {x : List UInt8} (hx : x.length ≤ 255) (z : List UInt8) :
    block (frame x ++ z) = x := by
  have hsize : ((frame x ++ z).getD 5 0).toNat = x.length := by
    show (UInt8.ofNat x.length).toNat = x.length
    exact UInt8.toNat_ofNat_of_lt' (Nat.lt_succ_of_le hx)
  rw [block, hsize]
  show (x ++ z).take x.length = x
  exact List.take_left

theorem length_block_le (z : List UInt8) : (block z).length ≤ 255 := by
  rw [block, List.length_take]
  exact (Nat.min_le_left _ _).trans (Nat.le_of_lt_succ (UInt8.toNat_lt _))

theorem blocks_of_decompress {fuel : Nat} {z x : List UInt8} (h : decompressFrames fuel z = some x) :
    ∃ bs : List (List UInt8), z = framed bs ∧ x = bs.flatten ∧ ∀ b ∈ bs, b.length ≤ 255 := by
  have hnothing : ∃ bs : List (List UInt8), [] = framed bs ∧ [] = bs.flatten ∧ ∀ b ∈ bs, b.length ≤ 255 :=
    ⟨[], rfl, rfl, by simp⟩
  induction fuel generalizing z x with
  | zero =>
    rw [decompressFrames] at h
    split at h
    · rename_i hnil
      rw [hnil, ← Option.some.inj h]
      exact hnothing
    · cases h
  | succ fuel ih =>
    rw [decompressFrames] at h
    split at h
    · rename_i hnil
      rw [hnil, ← Option.some.inj h]
      exact hnothing
    · split at h
      · rename_i hprefix
        obtain ⟨rest, hrest⟩ := hprefix
        obtain ⟨x', hx', rfl⟩ := Option.map_eq_some_iff.mp h
        have hdrop := congrArg (List.drop (frame (block z)).length) hrest
        rw [List.drop_left] at hdrop
        rw [← hdrop] at hx'
        obtain ⟨bs, hbs, rfl, hlength⟩ := ih hx'
        refine ⟨block z :: bs, ?_, rfl, fun b hb => ?_⟩
        · rw [framed, List.map_cons, List.flatten_cons, ← framed, ← hbs, hrest]
        · rcases List.mem_cons.mp hb with rfl | hb
          · exact length_block_le z
          · exact hlength b hb
      · cases h

theorem decompress_blocks {bs : List (List UInt8)} (hbs : ∀ b ∈ bs, b.length ≤ 255) {fuel : Nat}
    (hfuel : bs.length ≤ fuel) : decompressFrames fuel (framed bs) = some bs.flatten := by
  induction bs generalizing fuel with
  | nil =>
    cases fuel with
    | zero => rfl
    | succ fuel => rfl
  | cons b bs ih =>
    have hb := hbs b List.mem_cons_self
    cases fuel with
    | zero => cases hfuel
    | succ fuel =>
      have hne : framed (b :: bs) ≠ [] := List.append_ne_nil_of_left_ne_nil (frame_ne_nil b) _
      have hsplit : framed (b :: bs) = frame b ++ framed bs := rfl
      rw [decompressFrames, if_neg hne, hsplit, block_frame_append hb, if_pos (List.prefix_append _ _),
        List.drop_left, ih (fun b' hb' => hbs b' (List.mem_cons_of_mem b hb')) (Nat.le_of_succ_le_succ hfuel)]
      rfl

theorem length_le_framed (bs : List (List UInt8)) : bs.length ≤ (framed bs).length := by
  induction bs with
  | nil => exact Nat.le_refl 0
  | cons b bs ih =>
    have hpos : 0 < (frame b).length := List.length_pos_iff.mpr (frame_ne_nil b)
    rw [framed, List.map_cons, List.flatten_cons, ← framed, List.length_append, List.length_cons]
    omega

/-- **Frames may be put one behind the other.** -/
theorem concatenates : Concatenates decompress := by
  intro z z' x x' hz hz'
  obtain ⟨bs, rfl, rfl, hbs⟩ := blocks_of_decompress hz
  obtain ⟨bs', rfl, rfl, hbs'⟩ := blocks_of_decompress hz'
  have hboth : framed bs ++ framed bs' = framed (bs ++ bs') := by
    rw [framed, framed, framed, List.map_append, List.flatten_append]
  rw [hboth, decompress, decompress_blocks (fun b hb => ?_) (length_le_framed _), List.flatten_append]
  rcases List.mem_append.mp hb with hb | hb
  · exact hbs b hb
  · exact hbs' b hb

/-! ## What is written -/

theorem flatten_blocks (more : Nat) (x : List UInt8) : (blocks more x).flatten = x := by
  induction more generalizing x with
  | zero => exact List.flatten_singleton
  | succ more ih =>
    rw [blocks]
    split
    · exact List.flatten_singleton
    · rw [List.flatten_cons, ih, List.take_append_drop]

theorem length_of_mem_blocks {more : Nat} {x b : List UInt8} (hmore : x.length ≤ more)
    (hb : b ∈ blocks more x) : b.length ≤ 255 := by
  induction more generalizing x with
  | zero =>
    rw [List.mem_singleton.mp hb]
    omega
  | succ more ih =>
    rw [blocks] at hb
    split at hb
    · rename_i hshort
      rw [List.mem_singleton.mp hb]
      exact hshort
    · rcases List.mem_cons.mp hb with rfl | hb
      · rw [List.length_take]
        exact Nat.min_le_left _ _
      · refine ih ?_ hb
        rw [List.length_drop]
        omega

theorem framed_blocks_ne_nil (more : Nat) (x : List UInt8) : framed (blocks more x) ≠ [] := by
  cases more with
  | zero => exact List.append_ne_nil_of_left_ne_nil (frame_ne_nil x) _
  | succ more =>
    rw [blocks]
    split
    · exact List.append_ne_nil_of_left_ne_nil (frame_ne_nil x) _
    · exact List.append_ne_nil_of_left_ne_nil (frame_ne_nil _) _

/-- **What is written is read back.** -/
theorem lossless : Lossless compress decompress := by
  intro x
  refine ⟨framed (blocks x.length x), framed_blocks_ne_nil _ _, rfl, ?_⟩
  rw [decompress, decompress_blocks (fun b hb => length_of_mem_blocks (Nat.le_refl _) hb)
    (length_le_framed _), flatten_blocks]

end Oxool.Delta.Raw
