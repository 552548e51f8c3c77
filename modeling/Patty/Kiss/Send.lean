import Patty.Tnc

/-! # The KISS encoder (`kiss.c`)

`patty_kiss_frame_send` writes the runs of plain octets between the escapes. What it writes for a frame
on port 0, one write after the other, is `kissFrame` (`kissFrameSend_flatten`). -/

namespace Patty

/-- The loop of `patty_kiss_frame_send` with `n` octets left from `i` on, where the octets from `start`
up to `stop` are still to be written: the octets of each of its writes. -/
def kissSendLoop (buf : Mem) : Nat → Nat → Nat → Nat → List Bytes
  | 0, _, start, stop => if stop - start ≠ 0 then [buf.read start (stop - start)] else []
  | n + 1, i, start, stop =>
    let c := buf i
    if c = PATTY_KISS_FEND then
      buf.read start (stop - start) :: [PATTY_KISS_FESC, PATTY_KISS_TFEND] ::
        kissSendLoop buf n (i + 1) (i + 1) (i + 1)
    else if c = PATTY_KISS_FESC then
      buf.read start (stop - start) :: [PATTY_KISS_FESC, PATTY_KISS_TFESC] ::
        kissSendLoop buf n (i + 1) (i + 1) (i + 1)
    else kissSendLoop buf n (i + 1) start (i + 1)

/-- `patty_kiss_frame_send` of the first `len` octets of `buf`: the octets of each of its writes. -/
def kissFrameSend (buf : Mem) (len : Nat) (port : UInt8) : List Bytes :=
  [PATTY_KISS_FEND, ((port &&& 0x0f) <<< 4) ||| (PATTY_KISS_DATA &&& 0x0f)] ::
    kissSendLoop buf len 0 0 0 ++ [[PATTY_KISS_FEND]]

/-- The octets up to `i` that are not written yet, and the escaped octets from `i` on. -/
theorem kissSendLoop_flatten (buf : Mem) {n i start : Nat} (h : start ≤ i) :
    (kissSendLoop buf n i start i).flatten =
      buf.read start (i - start) ++ (buf.read i n).flatMap kissEscape := by
  induction n generalizing i start with
  | zero =>
    rw [kissSendLoop, Mem.read_zero, List.flatMap_nil, List.append_nil]
    split
    · rw [List.flatten_singleton]
    · rename_i hzero
      rw [not_not.mp hzero]
      rfl
  | succ n ih =>
    rw [kissSendLoop, Mem.read_succ, List.flatMap_cons]
    have hrest := ih (le_refl (i + 1))
    rw [Nat.sub_self, Mem.read_zero, List.nil_append] at hrest
    split_ifs with hfend hfesc
    · rw [List.flatten_cons, List.flatten_cons, hrest, hfend]
      rfl
    · rw [List.flatten_cons, List.flatten_cons, hrest, hfesc]
      rfl
    · have hplain : kissEscape (buf i) = [buf i] := by
        rw [kissEscape, if_neg hfend, if_neg hfesc]
      have hrun : buf.read start (i + 1 - start) = buf.read start (i - start) ++ [buf i] := by
        rw [show i + 1 - start = (i - start) + 1 by omega, Mem.read_append,
          show start + (i - start) = i by omega]
        rfl
      rw [ih (by omega : start ≤ i + 1), hplain, hrun, List.append_assoc]

/-- The octets of a frame on port 0. -/
theorem kissFrameSend_flatten (buf : Mem) (len : Nat) :
    (kissFrameSend buf len 0).flatten = kissFrame (buf.read 0 len) := by
  rw [kissFrameSend, List.flatten_append, List.flatten_cons, kissSendLoop_flatten buf (le_refl 0)]
  rfl

end Patty
