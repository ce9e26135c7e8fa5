import Oxool.Delta.Generator
import Oxool.Lib.Overwrite

/-!
# What a delta says

Above the bytes, a delta is a list of commands over rows of pixels: copy rows of the previous
frame, or put new pixels into a row. `Command.apply` is that meaning; `Command.bytes` is the wire
form. This file proves the encoder's half of the codec against it: the bytes `makeDelta` builds
are the wire form of commands that are all in range and that turn the rows of the old tile into
the rows of the new one (`deltaStream_commands`).
-/

set_option autoImplicit false

namespace Oxool.Delta

/-- The commands of a delta: `count` rows copied from `src` to `dest`, or pixels put into `row`
from column `col` on. -/
inductive Command where
  | copy (count src dest : Nat)
  | span (row col : Nat) (pixels : List Pixel)

namespace Command

/-- The wire form. -/
def bytes (mode : TileMode) : Command → List UInt8
  | .copy count src dest => [99, UInt8.ofNat count, UInt8.ofNat src, UInt8.ofNat dest]
  | .span row col pixels =>
    [100, UInt8.ofNat row, UInt8.ofNat col, UInt8.ofNat pixels.length] ++
      copyRow mode (pixels.flatMap pixelBytes)

/-- `count` rows of the previous frame `old` put into `img`. -/
def copyRows (old : List (List Pixel)) (src dest : Nat) :
    Nat → List (List Pixel) → List (List Pixel)
  | 0, img => img
  | n + 1, img => (copyRows old src dest n img).set (dest + n) (old.getD (src + n) [])

/-- The meaning of a command on the current frame, with the previous frame at hand. -/
def apply (old : List (List Pixel)) (img : List (List Pixel)) : Command → List (List Pixel)
  | .copy count src dest => copyRows old src dest count img
  | .span row col pixels => img.set row (overwrite (img.getD row []) col pixels)

/-- In range for a `w` by `h` tile: every number fits its byte, at least one row or pixel is
described, and nothing outside the tile is named. -/
def Valid (w h : Nat) : Command → Prop
  | .copy count src dest => 1 ≤ count ∧ count < 256 ∧ src + count ≤ h ∧ dest + count ≤ h
  | .span row col pixels =>
    row < h ∧ 1 ≤ pixels.length ∧ pixels.length < 256 ∧ col + pixels.length ≤ w

end Command

/-! ## The span encoder -/

theorem skipSame_spec {ps qs : List Pixel} (hlen : ps.length = qs.length) (hle : ps.length ≤ 256) :
    ∀ (n x : Nat) (old cur : PixIterator), x + n = ps.length → old.Reads ps x → cur.Reads qs x →
      let r := skipSame n old cur
      x + r.1 ≤ ps.length ∧ r.2.1.Reads ps (x + r.1) ∧ r.2.2.Reads qs (x + r.1) ∧
      (ps.drop x).take r.1 = (qs.drop x).take r.1 ∧
      (x + r.1 < ps.length → r.2.1.identical r.2.2 = false) := by
  intro n
  induction n with
  | zero =>
    intro x old cur hx hold hcur
    exact ⟨by simp [skipSame]; omega, hold, hcur, by simp [skipSame], by simp [skipSame]; omega⟩
  | succ n ih =>
    intro x old cur hx hold hcur
    by_cases hid : old.identical cur = true
    · obtain ⟨h1, h2, h3, h4, h5⟩ := ih (x + 1) old.next cur.next (by omega) (hold.next hle)
        (hcur.next (by omega))
      simp only [skipSame, hid, if_true]
      have hadd : x + ((skipSame n old.next cur.next).1 + 1) =
          x + 1 + (skipSame n old.next cur.next).1 := by omega
      rw [hadd]
      refine ⟨h1, h2, h3, ?_, h5⟩
      have hp : ps[x] = qs[x] := by
        have := hid
        simp only [PixIterator.identical, beq_iff_eq] at this
        rw [← hold.getPixel (by omega), ← hcur.getPixel (by omega)]
        exact this
      rw [List.drop_eq_getElem_cons (by omega : x < ps.length),
        List.drop_eq_getElem_cons (by omega : x < qs.length), List.take_succ_cons,
        List.take_succ_cons, hp, h4]
    · simp only [Bool.not_eq_true] at hid
      simp only [skipSame, hid, Bool.false_eq_true, if_false]
      exact ⟨by omega, hold, hcur, by simp, fun _ => trivial⟩

theorem takeDiff_spec {ps qs : List Pixel} (hlen : ps.length = qs.length) (hle : ps.length ≤ 256) :
    ∀ (n x diff : Nat) (old cur : PixIterator), x + n = ps.length → old.Reads ps x →
      cur.Reads qs x →
      let r := takeDiff diff n old cur
      x + r.1.length ≤ ps.length ∧ diff + r.1.length ≤ max diff 254 ∧
      r.2.1.Reads ps (x + r.1.length) ∧ r.2.2.Reads qs (x + r.1.length) ∧
      r.1 = (qs.drop x).take r.1.length := by
  intro n
  induction n with
  | zero =>
    intro x diff old cur hx hold hcur
    simp only [takeDiff, List.length_nil, Nat.add_zero, List.take_zero]
    exact ⟨by omega, by omega, hold, hcur, trivial⟩
  | succ n ih =>
    intro x diff old cur hx hold hcur
    by_cases hgo : ((!old.identical cur || decide (diff < 3)) && decide (diff < 254)) = true
    · obtain ⟨h1, h2, h3, h4, h5⟩ := ih (x + 1) (diff + 1) old.next cur.next (by omega)
        (hold.next hle) (hcur.next (by omega))
      have h254 : diff < 254 := by simpa using (Bool.and_eq_true _ _ |>.mp hgo).2
      simp only [takeDiff, hgo, if_true, List.length_cons]
      set r := takeDiff (diff + 1) n old.next cur.next
      have hadd : x + (r.1.length + 1) = x + 1 + r.1.length := by omega
      rw [hadd]
      refine ⟨h1, by omega, h3, h4, ?_⟩
      rw [List.drop_eq_getElem_cons (by omega : x < qs.length), List.take_succ_cons,
        ← hcur.getPixel (by omega), ← h5]
    · simp only [Bool.not_eq_true] at hgo
      simp only [takeDiff, hgo, Bool.false_eq_true, if_false, List.length_nil, Nat.add_zero,
        List.take_zero]
      exact ⟨by omega, by omega, hold, hcur, trivial⟩

/-- A round of the outer loop that is not at the end of the row finds a different pixel there and
so emits it. -/
theorem takeDiff_length_pos (n : Nat) {old cur : PixIterator} (h : old.identical cur = false) :
    1 ≤ (takeDiff 0 (n + 1) old cur).1.length := by
  simp [takeDiff, h]

/-- **The span encoder.** From column `x` on, the loop emits commands that complete a row whose
first `x` pixels are already the new ones. -/
theorem diffRowLoop_commands {ps qs : List Pixel} {y : Nat} (h : Nat) (mode : TileMode)
    (hlen : ps.length = qs.length) (hle : ps.length ≤ 256) (hy : y < h) :
    ∀ (fuel x : Nat) (old cur : PixIterator) (output : List UInt8), ps.length ≤ x + fuel →
      x ≤ ps.length → old.Reads ps x → cur.Reads qs x →
      ∃ cmds : List Command,
        diffRowLoop ps.length y mode fuel x old cur output =
          output ++ cmds.flatMap (Command.bytes mode) ∧
        (∀ c ∈ cmds, c.Valid ps.length h) ∧ (∀ c ∈ cmds, ∀ n s d, c ≠ .copy n s d) ∧
        ∀ old img : List (List Pixel), y < img.length →
          img.getD y [] = qs.take x ++ ps.drop x →
          cmds.foldl (Command.apply old) img = img.set y qs := by
  intro fuel
  induction fuel with
  | zero =>
    intro x old cur output hfuel hx hold hcur
    refine ⟨[], by simp [diffRowLoop], by simp, by simp, fun old img hy' himg => ?_⟩
    have hxe : x = ps.length := by omega
    rw [hxe, List.drop_length, List.append_nil, hlen, List.take_length] at himg
    rw [List.foldl_nil, ← himg, List.getD_eq_getElem _ _ hy', List.set_getElem_self]
  | succ fuel ih =>
    intro x old cur output hfuel hx hold hcur
    by_cases hlt : x < ps.length
    · obtain ⟨h1, h2, h3, h4, h5⟩ := skipSame_spec hlen hle (ps.length - x) x old cur
        (by omega) hold hcur
      simp only [diffRowLoop, hlt, if_true]
      set r := skipSame (ps.length - x) old cur with hr
      set x' := x + r.1 with hx'
      obtain ⟨g1, g2, g3, g4, g5⟩ := takeDiff_spec hlen hle (ps.length - x') x' 0 r.2.1 r.2.2
        (by omega) h2 h3
      set d := takeDiff 0 (ps.length - x') r.2.1 r.2.2 with hd
      have hprog : x < x' + d.1.length := by
        by_cases hend : x' < ps.length
        · have := takeDiff_length_pos (ps.length - x' - 1) (h5 hend)
          rw [Nat.sub_add_cancel (by omega : 1 ≤ ps.length - x'), ← hd] at this
          omega
        · omega
      -- the skipped pixels agree, so the row is as good at `x'` as at `x`
      have hskip : qs.take x ++ ps.drop x = qs.take x' ++ ps.drop x' := by
        rw [hx', List.take_add, ← h4, List.append_assoc]
        congr 1
        rw [← List.drop_drop, List.take_append_drop]
      clear_value x'
      by_cases hpos : d.1.length > 0
      · obtain ⟨cmds, hout, hvalid, hspan, happly⟩ := ih (x' + d.1.length) d.2.1 d.2.2
          (output ++ [100, UInt8.ofNat y, UInt8.ofNat x', UInt8.ofNat d.1.length] ++
            copyRow mode (d.1.flatMap pixelBytes)) (by omega) g1 g3 g4
        refine ⟨.span y x' d.1 :: cmds, ?_, ?_, ?_, fun old img hy' himg => ?_⟩
        · rw [if_pos hpos, hout, List.flatMap_cons, Command.bytes]
          simp only [List.append_assoc]
        · intro c hc
          rcases List.mem_cons.mp hc with rfl | hc
          · exact ⟨hy, hpos, by omega, g1⟩
          · exact hvalid c hc
        · intro c hc n s e
          rcases List.mem_cons.mp hc with rfl | hc
          · simp
          · exact hspan c hc n s e
        · rw [List.foldl_cons, Command.apply, himg, hskip]
          have htake : (qs.take x').length = x' := by rw [List.length_take]; omega
          have hover : overwrite (qs.take x' ++ ps.drop x') x' d.1 =
              qs.take (x' + d.1.length) ++ ps.drop (x' + d.1.length) := by
            have hmid : d.1.length = ((ps.drop x').take d.1.length).length := by
              rw [List.length_take, List.length_drop]; omega
            conv_lhs => rw [← List.take_append_drop d.1.length (ps.drop x'), ← List.append_assoc]
            conv_lhs => arg 2; rw [← htake]
            rw [overwrite_append hmid, List.take_add, ← g5, List.drop_drop]
          rw [happly old (img.set y _) (by simpa using hy')
            (by rw [List.getD_eq_getElem _ _ (by simpa using hy'), List.getElem_set_self, hover]),
            List.set_set]
      · have hd0 : d.1.length = 0 := by omega
        obtain ⟨cmds, hout, hvalid, hspan, happly⟩ := ih (x' + d.1.length) d.2.1 d.2.2 output
          (by omega) g1 g3 g4
        refine ⟨cmds, by rw [if_neg hpos]; exact hout, hvalid, hspan, fun old img hy' himg => ?_⟩
        refine happly old img hy' ?_
        rw [himg, hskip, hd0, Nat.add_zero]
    · obtain ⟨cmds, hout, hvalid, hspan, happly⟩ := ih x old cur output (by omega) hx hold hcur
      refine ⟨[], by simp [diffRowLoop, hlt], by simp, by simp, fun old img hy' himg => ?_⟩
      have hxe : x = ps.length := by omega
      rw [hxe, List.drop_length, List.append_nil, hlen, List.take_length] at himg
      rw [List.foldl_nil, ← himg, List.getD_eq_getElem _ _ hy', List.set_getElem_self]

/-! ## The row loop -/

section Encoder

variable {hasAVX2 : Bool} {widP widC : UInt32} {prev cur : Tile} {mode : TileMode}

theorem getRow_new (t : Tile) (wid : UInt32) {y : Nat} (hy : y < t.height) :
    (DeltaData.new hasAVX2 wid t).getRow y = initRow hasAVX2 (t.row y) (t.row y).length := by
  rw [DeltaData.getRow, List.getD_eq_getElem _ _ (by simpa [DeltaData.new] using hy),
    t.length_row hy]
  simp [DeltaData.new]

theorem getRow_rowOf (hasAVX2 : Bool) (t : Tile) (wid : UInt32) {y : Nat} (hy : y < t.height) :
    RowOf ((DeltaData.new hasAVX2 wid t).getRow y) (t.row y) := by
  rw [getRow_new t wid hy]
  exact initRow_rowOf hasAVX2 _ (by rw [t.length_row hy]; exact t.width_le)

theorem getRow_identical_iff (hw : prev.width = cur.width) {m y : Nat} (hm : m < prev.height)
    (hy : y < cur.height) :
    ((DeltaData.new hasAVX2 widP prev).getRow m).identical
      ((DeltaData.new hasAVX2 widC cur).getRow y) = true ↔ prev.row m = cur.row y := by
  have hlen : (prev.row m).length = (cur.row y).length := by
    rw [prev.length_row hm, cur.length_row hy, hw]
  rw [getRow_new prev widP hm, getRow_new cur widC hy]
  exact initRow_identical_iff hasAVX2 hlen (by rw [prev.length_row hm]; exact prev.width_le)

/-- The hunt answers with a row of the old tile, and only with an identical one. -/
theorem huntRow_some {d : DeltaData} {curRow : DeltaBitmapRow} {y off : Nat} (hpos : 0 < d.height) :
    ∀ {n m : Nat}, huntRow d curRow y off n = some m →
      m < d.height ∧ (d.getRow m).identical curRow = true := by
  intro n
  induction n with
  | zero => intro m h; exact absurd h (by simp [huntRow])
  | succ n ih =>
    intro m h
    rw [huntRow] at h
    by_cases hid : (d.getRow ((y + off + (d.height - (n + 1))) % 2 ^ 64 % d.height)).identical
        curRow = true
    · simp only [hid, if_true, Option.some.injEq] at h
      subst h
      exact ⟨Nat.mod_lt _ hpos, hid⟩
    · simp only [Bool.not_eq_true] at hid
      simp only [hid, Bool.false_eq_true, if_false] at h
      exact ih h

/-- The frame half way: new rows above `y`, old rows from `y` on. -/
def halfFrame (prev cur : Tile) (y : Nat) : List (List Pixel) :=
  cur.rows.take y ++ prev.rows.drop y

theorem length_halfFrame (hh : prev.height = cur.height) {y : Nat} (hy : y ≤ prev.height) :
    (halfFrame prev cur y).length = prev.height := by
  rw [halfFrame, List.length_append, List.length_take, List.length_drop, prev.length_rows,
    cur.length_rows]
  omega

theorem halfFrame_succ (hh : prev.height = cur.height) {y : Nat} (hy : y < prev.height) :
    (halfFrame prev cur y).set y (cur.row y) = halfFrame prev cur (y + 1) := by
  have hp : y < prev.rows.length := by rw [prev.length_rows]; exact hy
  have hc : y < cur.rows.length := by rw [cur.length_rows]; omega
  have htake : (cur.rows.take y).length = y := by rw [List.length_take]; omega
  rw [halfFrame, List.drop_eq_getElem_cons hp, List.set_append_right _ _ (by omega), htake,
    Nat.sub_self, List.set_cons_zero, halfFrame, ← List.take_append_getElem hc,
    cur.getElem_rows hc, List.append_assoc, List.singleton_append]

theorem halfFrame_getD (hh : prev.height = cur.height) {y : Nat} (hy : y < prev.height) :
    (halfFrame prev cur y).getD y [] = prev.row y := by
  have hp : y < prev.rows.length := by rw [prev.length_rows]; exact hy
  have htake : (cur.rows.take y).length = y := by
    rw [List.length_take, cur.length_rows]; omega
  rw [halfFrame, List.getD_append_right _ _ _ _ (by omega), htake, Nat.sub_self,
    List.drop_eq_getElem_cons hp, prev.getElem_rows hp]
  rfl

/-- `makeDelta`'s loop invariant after `y` rows. The merge of copies patches a byte in the middle
of the output, and `last` is what makes that sound: the patched command can only line up with the
next row while it is still the last command. -/
structure DeltaScan.Encodes (prev cur : Tile) (mode : TileMode) (y : Nat) (s : DeltaScan)
    (cmds : List Command) : Prop where
  output : s.output = cmds.flatMap (Command.bytes mode)
  valid : ∀ c ∈ cmds, c.Valid prev.width prev.height
  copies : ∀ n a b, Command.copy n a b ∈ cmds → ∀ k, k < n → cur.row (b + k) = prev.row (a + k)
  frame : cmds.foldl (Command.apply prev.rows) prev.rows = halfFrame prev cur y
  last : s.lastCopy = 0 ∨ ∃ pre n a b post, cmds = pre ++ .copy n a b :: post ∧
    s.lastCopy = (pre.flatMap (Command.bytes mode)).length + 1 ∧ b + n ≤ y ∧ (b + n = y → post = [])

/-- Reading the three argument bytes of the command at `lastCopy` back. -/
theorem lastCopy_bytes {pre : List Command} (post : List Command) {n a b : Nat} (hn : n < 256) (ha : a < 256)
    (hb : b < 256) {output : List UInt8} {lastCopy : Nat}
    (hout : output = (pre ++ .copy n a b :: post).flatMap (Command.bytes mode))
    (hlast : lastCopy = (pre.flatMap (Command.bytes mode)).length + 1) :
    (output.getD lastCopy 0).toNat = n ∧ (output.getD (lastCopy + 1) 0).toNat = a ∧
      (output.getD (lastCopy + 2) 0).toNat = b := by
  have hsplit : output = pre.flatMap (Command.bytes mode) ++
      ([99, UInt8.ofNat n, UInt8.ofNat a, UInt8.ofNat b] ++
        post.flatMap (Command.bytes mode)) := by
    rw [hout, List.flatMap_append, List.flatMap_cons, Command.bytes]
  have hget : ∀ k, output.getD (lastCopy + k) 0 =
      ([UInt8.ofNat n, UInt8.ofNat a, UInt8.ofNat b] ++ post.flatMap (Command.bytes mode)).getD k 0 := by
    intro k
    rw [hsplit, hlast, List.getD_append_right _ _ _ _ (by omega)]
    rw [show (pre.flatMap (Command.bytes mode)).length + 1 + k -
      (pre.flatMap (Command.bytes mode)).length = k + 1 by omega]
    rfl
  have h0 := hget 0
  rw [Nat.add_zero] at h0
  refine ⟨?_, ?_, ?_⟩
  · rw [h0]; exact UInt8.toNat_ofNat_of_lt' hn
  · rw [hget 1]; exact UInt8.toNat_ofNat_of_lt' ha
  · rw [hget 2]; exact UInt8.toNat_ofNat_of_lt' hb

theorem rows_getD (t : Tile) {y : Nat} (hy : y < t.height) : t.rows.getD y [] = t.row y := by
  rw [List.getD_eq_getElem _ _ (by rw [t.length_rows]; exact hy), t.getElem_rows]

/-- A row left alone because it did not change. -/
theorem DeltaScan.Encodes.skip {y : Nat} {s : DeltaScan} {cmds : List Command}
    (h : s.Encodes prev cur mode y cmds) (hh : prev.height = cur.height) (hy : y < prev.height)
    (hrow : prev.row y = cur.row y) : s.Encodes prev cur mode (y + 1) cmds := by
  refine ⟨h.output, h.valid, h.copies, ?_, ?_⟩
  · have hlen : y < (halfFrame prev cur y).length := by
      rw [length_halfFrame hh (Nat.le_of_lt hy)]; exact hy
    have hget := halfFrame_getD hh hy
    rw [List.getD_eq_getElem _ _ hlen, hrow] at hget
    rw [h.frame, ← halfFrame_succ hh hy, ← hget, List.set_getElem_self]
  · rcases h.last with h0 | ⟨pre, n, a, b, post, hcmds, hlast, hle, hpost⟩
    · exact Or.inl h0
    · exact Or.inr ⟨pre, n, a, b, post, hcmds, hlast, by omega, fun heq => by omega⟩

/-- A row copied from the old tile: either the last copy grows by one row, or a new copy starts. -/
theorem DeltaScan.Encodes.emitCopy {y m : Nat} {s : DeltaScan} {cmds : List Command}
    (h : s.Encodes prev cur mode y cmds) (hh : prev.height = cur.height) (hy : y < prev.height)
    (hm : m < prev.height) (hrow : prev.row m = cur.row y) :
    ∃ cmds', (emitCopy prev.height m y s).Encodes prev cur mode (y + 1) cmds' := by
  have hle := prev.height_le
  by_cases hext : canExtend s.output s.lastCopy prev.height m y = true
  · have hcond := hext
    simp only [canExtend, Bool.and_eq_true, decide_eq_true_eq] at hcond
    obtain ⟨⟨⟨hpos, hsrc⟩, hdst⟩, hroom⟩ := hcond
    rcases h.last with h0 | ⟨pre, n, a, b, post, hcmds, hlast, hby, hpost⟩
    · omega
    have hval := h.valid (.copy n a b) (by rw [hcmds]; simp)
    obtain ⟨hn1, hn256, han, hbn⟩ := hval
    obtain ⟨hcnt, hsr, hde⟩ := lastCopy_bytes post hn256
      (by omega : a < 256) (by omega : b < 256) (h.output.trans (by rw [hcmds])) hlast
    rw [hcnt, hsr] at hsrc hroom
    rw [hcnt, hde] at hdst
    obtain rfl := hpost hdst
    refine ⟨pre ++ [.copy (n + 1) a b], ?_, ?_, ?_, ?_, Or.inr ?_⟩
    · have hbytes : s.output.getD s.lastCopy 0 + 1 = UInt8.ofNat (n + 1) := by
        apply UInt8.toNat_inj.mp
        rw [UInt8.toNat_add, hcnt, UInt8.toNat_ofNat_of_lt' (by omega : n + 1 < 256)]
        simp only [UInt8.toNat_one]
        omega
      simp only [Delta.emitCopy, hext, if_true]
      rw [hbytes, h.output, hcmds, hlast, List.flatMap_append, List.flatMap_append,
        List.set_append_right _ _ (by omega), Nat.add_sub_cancel_left]
      rfl
    · intro c hc
      rcases List.mem_append.mp hc with hc | hc
      · exact h.valid c (by rw [hcmds]; exact List.mem_append_left _ hc)
      · rw [List.mem_singleton.mp hc]
        exact ⟨by omega, by omega, by omega, by omega⟩
    · intro n' a' b' hc k hk
      rcases List.mem_append.mp hc with hc | hc
      · exact h.copies n' a' b' (by rw [hcmds]; exact List.mem_append_left _ hc) k hk
      · simp only [List.mem_singleton, Command.copy.injEq] at hc
        obtain ⟨rfl, rfl, rfl⟩ := hc
        by_cases hkn : k < n
        · exact h.copies n a' b' (by rw [hcmds]; simp) k hkn
        · rw [show k = n by omega, hdst, hsrc, hrow]
    · have hframe := h.frame
      rw [hcmds, List.foldl_append, List.foldl_cons, List.foldl_nil, Command.apply] at hframe
      rw [List.foldl_append, List.foldl_cons, List.foldl_nil, Command.apply, Command.copyRows,
        hframe, hdst, hsrc, rows_getD prev hm, hrow, halfFrame_succ hh hy]
    · refine ⟨pre, n + 1, a, b, [], by simp, ?_, by omega, fun _ => rfl⟩
      rw [← hlast, Delta.emitCopy, if_pos hext]
  · simp only [Bool.not_eq_true] at hext
    refine ⟨cmds ++ [.copy 1 m y], ?_, ?_, ?_, ?_, Or.inr ?_⟩
    · simp only [Delta.emitCopy, hext, Bool.false_eq_true, if_false]
      rw [h.output, List.flatMap_append]
      rfl
    · intro c hc
      rcases List.mem_append.mp hc with hc | hc
      · exact h.valid c hc
      · rw [List.mem_singleton.mp hc]
        exact ⟨by omega, by omega, by omega, by omega⟩
    · intro n' a' b' hc k hk
      rcases List.mem_append.mp hc with hc | hc
      · exact h.copies n' a' b' hc k hk
      · simp only [List.mem_singleton, Command.copy.injEq] at hc
        obtain ⟨rfl, rfl, rfl⟩ := hc
        rw [show k = 0 by omega, Nat.add_zero, Nat.add_zero, hrow]
    · rw [List.foldl_append, h.frame, List.foldl_cons, List.foldl_nil, Command.apply,
        Command.copyRows, Command.copyRows, Nat.add_zero, Nat.add_zero, rows_getD prev hm, hrow,
        halfFrame_succ hh hy]
    · refine ⟨cmds, 1, m, y, [], by simp, ?_, by omega, fun _ => rfl⟩
      rw [← h.output, Delta.emitCopy, if_neg (by simp [hext])]

/-- A row found nowhere in the old tile, coded as spans. -/
theorem DeltaScan.Encodes.diffRow {y : Nat} {s : DeltaScan} {cmds : List Command}
    (h : s.Encodes prev cur mode y cmds) (hw : prev.width = cur.width)
    (hh : prev.height = cur.height) (hy : y < prev.height) :
    ∃ cmds', DeltaScan.Encodes prev cur mode (y + 1)
      { s with
        output := diffRowTo ((DeltaData.new hasAVX2 widP prev).getRow y)
          ((DeltaData.new hasAVX2 widC cur).getRow y) prev.width y s.output mode } cmds' := by
  have hyc : y < cur.height := by omega
  have hlp := prev.length_row hy
  have hlc := cur.length_row hyc
  have hold := PixIterator.new_reads (getRow_rowOf hasAVX2 prev widP hy)
    (by rw [hlp]; exact prev.width_le)
  have hcur := PixIterator.new_reads (getRow_rowOf hasAVX2 cur widC hyc)
    (by rw [hlc]; exact cur.width_le)
  obtain ⟨spans, hout, hvalid, hspan, happly⟩ := diffRowLoop_commands prev.height mode
    (by rw [hlp, hlc, hw]) (by rw [hlp]; exact prev.width_le) hy prev.width 0 _ _ s.output
    (by omega) (Nat.zero_le _) hold hcur
  rw [hlp] at hout hvalid
  refine ⟨cmds ++ spans, ?_, ?_, ?_, ?_, ?_⟩
  · simp only [diffRowTo]
    rw [hout, h.output, List.flatMap_append]
  · intro c hc
    rcases List.mem_append.mp hc with hc | hc
    · exact h.valid c hc
    · exact hvalid c hc
  · intro n a b hc
    rcases List.mem_append.mp hc with hc | hc
    · exact h.copies n a b hc
    · exact absurd rfl (hspan _ hc n a b)
  · rw [List.foldl_append, h.frame, happly prev.rows _
      (by rw [length_halfFrame hh (Nat.le_of_lt hy)]; exact hy)
      (by rw [halfFrame_getD hh hy]; simp), halfFrame_succ hh hy]
  · rcases h.last with h0 | ⟨pre, n, a, b, post, hcmds, hlast, hle, hpost⟩
    · exact Or.inl h0
    · exact Or.inr ⟨pre, n, a, b, post ++ spans, by rw [hcmds]; simp, hlast, by omega,
        fun heq => by omega⟩

variable (hasAVX2 widP widC mode)

theorem deltaRows_encodes (hw : prev.width = cur.width) (hh : prev.height = cur.height) :
    ∀ y, y ≤ prev.height → ∃ cmds, (deltaRows (DeltaData.new hasAVX2 widP prev)
      (DeltaData.new hasAVX2 widC cur) mode y).Encodes prev cur mode y cmds
  | 0, _ => ⟨[], rfl, by simp, by simp, by simp [halfFrame], Or.inl rfl⟩
  | y + 1, hy => by
    obtain ⟨cmds, h⟩ := deltaRows_encodes hw hh y (by omega)
    rw [deltaRows, deltaRow]
    split
    · rename_i hid
      exact ⟨cmds, h.skip hh hy ((getRow_identical_iff hw hy (by omega)).mp hid)⟩
    · split
      · rename_i m hm
        obtain ⟨hlt, hid⟩ := huntRow_some (show 0 < prev.height by omega) hm
        exact h.emitCopy hh hy hlt ((getRow_identical_iff hw hlt (by omega)).mp hid)
      · exact h.diffRow hw hh hy

/-- **The encoder's half of the codec.** For tiles of one size the uncompressed stream is the
wire form of in-range commands and a terminator, or nothing at all; every copied row is a row the
old tile has; and the commands turn the old rows into the new ones. -/
theorem deltaStream_commands (hw : prev.width = cur.width) (hh : prev.height = cur.height) :
    ∃ cmds : List Command,
      deltaStream (DeltaData.new hasAVX2 widP prev) (DeltaData.new hasAVX2 widC cur) mode =
        some (if cmds = [] then [] else cmds.flatMap (Command.bytes mode) ++ [116]) ∧
      (∀ c ∈ cmds, c.Valid prev.width prev.height) ∧
      (∀ n a b, Command.copy n a b ∈ cmds → ∀ k, k < n → cur.row (b + k) = prev.row (a + k)) ∧
      cmds.foldl (Command.apply prev.rows) prev.rows = cur.rows := by
  obtain ⟨cmds, h⟩ := deltaRows_encodes hasAVX2 widP widC mode hw hh prev.height (Nat.le_refl _)
  refine ⟨cmds, ?_, h.valid, h.copies, ?_⟩
  · have hempty : (cmds.flatMap (Command.bytes mode)).isEmpty = true ↔ cmds = [] := by
      cases cmds with
      | nil => simp
      | cons c cs => cases c <;> simp [Command.bytes]
    simp only [deltaStream]
    rw [if_neg (by simp [DeltaData.new, hw, hh])]
    rw [show (DeltaData.new hasAVX2 widP prev).height = prev.height from rfl, h.output]
    by_cases hc : cmds = []
    · rw [if_pos (hempty.mpr hc), if_pos hc]
    · rw [if_neg (fun he => hc (hempty.mp he)), if_neg hc]
  · rw [h.frame, halfFrame, hh, List.take_of_length_le (by simp),
      List.drop_eq_nil_of_le (by simp [hh]), List.append_nil]

end Encoder

end Oxool.Delta
