import Patty.Wire.Codec
import Patty.Wire.Reply
import Patty.Wire.Xid

/-! # Where the encoders store

The indices at which `patty_ax25_frame_encode`, `patty_ax25_frame_encode_reply_to` and
`patty_ax25_frame_encode_xid` store, and what they return, for a buffer of any length. Each checks the parts of
what it stores on its own, and the control field not at all. -/

namespace Patty

/-! ## Storing octets one after the other -/

/-- The variable `offset` of an encoder, and the indices it has stored at. -/
structure Cursor where
  offset : Nat
  stores : List Nat

/-- `ssize_t` of a `size_t`. -/
def ssize (n : Nat) : Int := if n < 2 ^ 63 then n else (n : Int) - 2 ^ 64

namespace Cursor

variable {c : Cursor} {n k i : Nat}

/-- `n` times `buf[offset++] = …`, or a `memcpy` of `n` octets to `buf + offset`. -/
def put (c : Cursor) (n : Nat) : Cursor :=
  ⟨sizeAdd c.offset n, c.stores ++ (List.range n).map (sizeAdd c.offset)⟩

/-- The first `n` octets of the buffer have been stored, and no others. -/
structure Filled (c : Cursor) (n : Nat) : Prop where
  offset : c.offset = n
  stores : ∀ i, i ∈ c.stores ↔ i < n

theorem mem_put_left (h : i ∈ c.stores) : i ∈ (c.put n).stores := List.mem_append_left _ h

/-- Every octet up to where `put` ends has been stored. -/
theorem Filled.mem_put (h : c.Filled n) (hi : i < n + k) (hsize : i < 2 ^ 64) : i ∈ (c.put k).stores := by
  by_cases hlt : i < n
  · exact mem_put_left ((h.stores i).mpr hlt)
  · refine List.mem_append_right _ (List.mem_map.mpr ⟨i - n, List.mem_range.mpr (by omega), ?_⟩)
    rw [h.offset, sizeAdd_of_lt (by omega)]
    omega

theorem mem_put_iff (hsize : c.offset + n < 2 ^ 64) :
    i ∈ (c.put n).stores ↔ i ∈ c.stores ∨ c.offset ≤ i ∧ i < c.offset + n := by
  rw [put, List.mem_append]
  refine or_congr_right ⟨fun hi => ?_, fun ⟨hle, hlt⟩ => List.mem_map.mpr ⟨i - c.offset, ?_, ?_⟩⟩
  · obtain ⟨j, hj, rfl⟩ := List.mem_map.mp hi
    have hlt := List.mem_range.mp hj
    rw [sizeAdd_of_lt (by omega)]
    omega
  · exact List.mem_range.mpr (by omega)
  · rw [sizeAdd_of_lt (by omega)]
    omega

theorem Filled.put (h : c.Filled n) (hsize : n + k < 2 ^ 64) : (c.put k).Filled (n + k) := by
  refine ⟨by rw [Cursor.put, h.offset, sizeAdd_of_lt hsize], fun i => ?_⟩
  rw [mem_put_iff (by rw [h.offset]; exact hsize), h.stores, h.offset]
  omega

end Cursor

/-- What an encoder does with its buffer: `memset` to zero of the first `cleared` octets, the indices it stores
at, and what it returns. -/
structure Encoding where
  cleared : Nat
  stores : List Nat
  ret : Int

/-- The encoder of something of `size` octets stays within a buffer of `len` octets, refuses exactly what does
not fit, and returns how many octets it has stored. -/
structure Encoding.Respects (e : Encoding) (size len : Nat) : Prop where
  cleared : e.cleared ≤ len
  within : ∀ i ∈ e.stores, i < len
  refuses : len < size → e.ret = -1
  returns : size ≤ len → e.ret = size ∧ ∀ i, i ∈ e.stores ↔ i < size

theorem ssize_eq {n : Nat} : ssize n = n ↔ n < 2 ^ 63 := by
  unfold ssize
  split <;> omega

/-! ## Frames -/

/-- `encode_address`, with the extension bit at last: `none` if it returns -1. -/
def addressCursor (hops len : Nat) : Option Cursor :=
  if len < (2 + hops) * 7 then none
  else
    let c := (Cursor.mk 0 []).put ((2 + hops) * 7)
    some { c with stores := c.stores ++ [c.offset - 1] }

/-- The `switch` over the format, in both encoders. -/
def putControl (format : FrameFormat) (control : Nat) (c : Cursor) : Cursor :=
  match format with
  | .normal => c.put 1
  | .extended =>
    let c := c.put 1
    if controlU control then c else c.put 1

/-- A control field with which a PID is stored. -/
def controlPid (control : Nat) : Bool := controlI control || controlUI control

/-- `patty_ax25_frame_encode` -/
def Frame.encodeStores (frame : Frame) (len : Nat) : Encoding :=
  match addressCursor frame.hops len with
  | none => ⟨0, [], -1⟩
  | some c =>
    let c := putControl frame.format frame.control c
    if frame.info.isSome && frame.infolen != 0 then
      if len < sizeAdd (sizeAdd 1 c.offset) frame.infolen then ⟨0, c.stores, -1⟩
      else
        let c := if controlPid frame.control then c.put 1 else c
        let c := c.put frame.infolen
        ⟨0, c.stores, ssize c.offset⟩
    else ⟨0, c.stores, ssize c.offset⟩

/-- `patty_ax25_frame_encode_reply_to`. What `encode_address` returns is kept in a `size_t`, also where it is -1. -/
def replyStores (frame reply : Frame) (len : Nat) : Encoding :=
  let c := (addressCursor frame.hops len).getD ⟨2 ^ 64 - 1, []⟩
  let c := putControl reply.format reply.control c
  if controlPid reply.control then
    if len < sizeAdd (sizeAdd 1 c.offset) reply.infolen then ⟨0, c.stores, -1⟩
    else
      let c := (c.put 1).put reply.infolen
      ⟨0, c.stores, ssize c.offset⟩
  else ⟨0, c.stores, ssize c.offset⟩

/-- The octets of the address field and the control field. -/
def headerSize (hops : Nat) (format : FrameFormat) (control : Nat) : Nat :=
  (2 + hops) * 7 + (encodeControl format control).length

/-- The octets of a frame. -/
def Frame.encodedSize (frame : Frame) : Nat :=
  headerSize frame.hops frame.format frame.control +
    if frame.info.isSome && frame.infolen != 0 then (controlPid frame.control).toNat + frame.infolen else 0

/-- The octets of a reply to `frame`. -/
def replySize (frame reply : Frame) : Nat :=
  headerSize frame.hops reply.format reply.control +
    if controlPid reply.control then 1 + reply.infolen else 0

variable {frame reply : Frame} {format : FrameFormat} {control hops len : Nat} {c : Cursor}

theorem addressCursor_filled (hhops : hops ≤ PATTY_AX25_MAX_HOPS) (hlen : (2 + hops) * 7 ≤ len) :
    ∃ c, addressCursor hops len = some c ∧ c.Filled ((2 + hops) * 7) := by
  have hmax : hops ≤ 8 := hhops
  have hfilled : ((Cursor.mk 0 []).put ((2 + hops) * 7)).Filled (0 + (2 + hops) * 7) :=
    Cursor.Filled.put ⟨rfl, fun i => by simp⟩ (by omega)
  rw [Nat.zero_add] at hfilled
  refine ⟨_, if_neg (by omega), hfilled.offset, fun i => ?_⟩
  rw [List.mem_append, hfilled.stores, hfilled.offset, List.mem_singleton]
  omega

theorem length_encodeControl_pos (format : FrameFormat) (control : Nat) :
    1 ≤ (encodeControl format control).length ∧ (encodeControl format control).length ≤ 2 := by
  unfold encodeControl
  split
  · simp
  · split <;> simp

theorem putControl_filled {n : Nat} (h : c.Filled n) (hsize : n + 2 < 2 ^ 64) :
    (putControl format control c).Filled (n + (encodeControl format control).length) := by
  unfold putControl encodeControl
  cases format with
  | normal => exact h.put (by omega)
  | extended =>
    dsimp only
    split
    · exact h.put (by omega)
    · exact (h.put (k := 1) (by omega)).put (by omega)

/-! ## Respect for the length -/

theorem not_respects {e : Encoding} {size : Nat} (h : len ∈ e.stores) : ¬e.Respects size len :=
  fun hrespects => absurd (hrespects.within len h) (Nat.lt_irrefl len)

/-- An encoder that has stored all that it has to. -/
theorem filled_respects {size : Nat} (h : c.Filled size) (hle : size ≤ len) :
    Encoding.Respects ⟨0, c.stores, ssize c.offset⟩ size len ↔ size < 2 ^ 63 := by
  rw [← ssize_eq, h.offset]
  constructor
  · exact fun hrespects => (hrespects.returns hle).1
  · intro hret
    exact ⟨Nat.zero_le _, fun i hi => ((h.stores i).mp hi).trans_le hle, fun hlt => by omega,
      fun _ => ⟨hret, h.stores⟩⟩

/-- An encoder that gives up halfway. -/
theorem refused_respects {n size : Nat} (h : c.Filled n) (hle : n ≤ len) :
    Encoding.Respects ⟨0, c.stores, -1⟩ size len ↔ len < size := by
  constructor
  · intro hrespects
    by_contra hge
    have hret := (hrespects.returns (by omega)).1
    dsimp only at hret
    omega
  · intro hlt
    exact ⟨Nat.zero_le _, fun i hi => ((h.stores i).mp hi).trans_le hle, fun _ => rfl, fun hle => by omega⟩

/-- When the payload is stored right behind a header of `n` octets: the size of the frame does not wrap, nor is it
negative as the result, and without a PID the frame does not fill the buffer. -/
structure PayloadFits (pid : Bool) (n infolen len : Nat) : Prop where
  wrap : 1 + n + infolen < 2 ^ 64
  exact : pid = false → len ≠ n + infolen
  ssize : n + (pid.toNat + infolen) ≤ len → n + (pid.toNat + infolen) < 2 ^ 63

/-- What both encoders do with a payload. -/
def putPayload (pid : Bool) (infolen len : Nat) (c : Cursor) : Encoding :=
  if len < sizeAdd (sizeAdd 1 c.offset) infolen then ⟨0, c.stores, -1⟩
  else
    let c := if pid then c.put 1 else c
    let c := c.put infolen
    ⟨0, c.stores, ssize c.offset⟩

theorem putPid_filled {pid : Bool} {n : Nat} (h : c.Filled n) (hsize : n + 1 < 2 ^ 64) :
    (if pid then c.put 1 else c).Filled (n + pid.toNat) := by
  cases pid with
  | true => exact h.put hsize
  | false => exact h

theorem putPayload_respects {pid : Bool} {n infolen : Nat} (h : c.Filled n) (hle : n ≤ len) (hsmall : n ≤ 72)
    (hinfo : infolen < 2 ^ 64) (hlen : len < 2 ^ 64) :
    (putPayload pid infolen len c).Respects (n + (pid.toNat + infolen)) len ↔ PayloadFits pid n infolen len := by
  have hpid : pid.toNat ≤ 1 := pid.toNat_le
  have hfilled : (if pid then c.put 1 else c).Filled (n + pid.toNat) := putPid_filled h (by omega)
  have hwrap : sizeAdd (sizeAdd 1 c.offset) infolen = (1 + n + infolen) % 2 ^ 64 := by
    have hone : sizeAdd 1 n = 1 + n := sizeAdd_of_lt (by omega)
    rw [h.offset, hone, sizeAdd]
  unfold putPayload
  rw [hwrap]
  split
  · -- the code gives up: rightly, unless the frame without a PID fills the buffer
    rename_i hlt
    rw [refused_respects h hle]
    constructor
    · intro hsize
      refine ⟨?_, fun hp => by rw [hp] at hsize; simp at hsize; omega, fun hge => by omega⟩
      by_contra hge
      rw [Nat.mod_eq_sub_mod (by omega), Nat.mod_eq_of_lt (by omega)] at hlt
      omega
    · intro hfits
      have hnowrap := hfits.wrap
      rw [Nat.mod_eq_of_lt hnowrap] at hlt
      cases pid with
      | true => simp only [Bool.toNat_true]; omega
      | false =>
        have hne := hfits.exact rfl
        simp only [Bool.toNat_false]
        omega
  · rename_i hge
    by_cases hsize : n + (pid.toNat + infolen) ≤ len
    · have hall := hfilled.put (k := infolen) (by omega)
      rw [Nat.add_assoc] at hall
      rw [filled_respects hall hsize]
      constructor
      · intro hlt
        refine ⟨by omega, fun hp heq => ?_, fun _ => hlt⟩
        rw [Nat.mod_eq_of_lt (by omega)] at hge
        omega
      · exact fun hfits => hfits.ssize hsize
    · refine iff_of_false (not_respects (hfilled.mem_put (by omega) hlen)) fun hfits => ?_
      rw [Nat.mod_eq_of_lt hfits.wrap] at hge
      cases pid with
      | true => simp only [Bool.toNat_true] at hsize; omega
      | false => simp only [Bool.toNat_false] at hsize; omega

/-- The octets of the payload of a frame, with its PID. -/
def Frame.hasPayload (frame : Frame) : Bool := frame.info.isSome && frame.infolen != 0

/-- The buffer does not end within the control field, nor before it where the address field fits; and the payload
fits. -/
def Frame.LeavesRoom (frame : Frame) (len : Nat) : Prop :=
  len < (2 + frame.hops) * 7 ∨ headerSize frame.hops frame.format frame.control ≤ len ∧
    (frame.hasPayload → PayloadFits (controlPid frame.control) (headerSize frame.hops frame.format frame.control)
      frame.infolen len)

/-- There is room for the header, and the payload fits. -/
def ReplyRoom (frame reply : Frame) (len : Nat) : Prop :=
  headerSize frame.hops reply.format reply.control ≤ len ∧
    (controlPid reply.control → PayloadFits true (headerSize frame.hops reply.format reply.control) reply.infolen len)

theorem headerSize_le (hhops : hops ≤ PATTY_AX25_MAX_HOPS) :
    (2 + hops) * 7 < headerSize hops format control ∧ headerSize hops format control ≤ 72 := by
  have hmax : hops ≤ 8 := hhops
  obtain ⟨hpos, htwo⟩ := length_encodeControl_pos format control
  unfold headerSize
  omega

/-- The header is stored whole, wherever the buffer ends. -/
theorem header_filled (hhops : hops ≤ PATTY_AX25_MAX_HOPS) (hlen : (2 + hops) * 7 ≤ len) :
    ∃ c, addressCursor hops len = some c ∧
      (putControl format control c).Filled (headerSize hops format control) := by
  have hmax : hops ≤ 8 := hhops
  obtain ⟨c, hc, hfilled⟩ := addressCursor_filled hhops hlen
  exact ⟨c, hc, putControl_filled hfilled (by omega)⟩

theorem mem_putPayload {pid : Bool} {infolen i : Nat} (h : i ∈ c.stores) :
    i ∈ (putPayload pid infolen len c).stores := by
  unfold putPayload
  split
  · exact h
  · cases pid with
    | true => exact Cursor.mem_put_left (Cursor.mem_put_left h)
    | false => exact Cursor.mem_put_left h

/-- Where the buffer ends within the control field, the control field is stored beyond it. -/
theorem Frame.encodeStores_beyond (hhops : frame.hops ≤ PATTY_AX25_MAX_HOPS) (haddr : (2 + frame.hops) * 7 ≤ len)
    (hhdr : len < headerSize frame.hops frame.format frame.control) : len ∈ (frame.encodeStores len).stores := by
  obtain ⟨c, hc, hfilled⟩ := @header_filled frame.format frame.control _ _ hhops haddr
  have hmem := (hfilled.stores len).mpr hhdr
  rw [encodeStores, hc]
  dsimp only
  split
  · exact mem_putPayload hmem
  · exact hmem

/-- Where the address field does not fit, the control field is stored in front of the buffer. -/
theorem replyStores_beyond (hhops : frame.hops ≤ PATTY_AX25_MAX_HOPS)
    (hhdr : len < headerSize frame.hops reply.format reply.control) (hlen : len < 2 ^ 64) :
    ∃ i ∈ (replyStores frame reply len).stores, len ≤ i := by
  have hpayload {c : Cursor} {i : Nat} (hi : i ∈ c.stores) :
      i ∈ (if controlPid reply.control then putPayload true reply.infolen len c
        else ⟨0, c.stores, ssize c.offset⟩ : Encoding).stores := by
    cases controlPid reply.control with
    | true => exact mem_putPayload hi
    | false => exact hi
  by_cases haddr : len < (2 + frame.hops) * 7
  · refine ⟨2 ^ 64 - 1, ?_, by omega⟩
    rw [replyStores, addressCursor, if_pos haddr]
    refine hpayload ?_
    have hone : 2 ^ 64 - 1 ∈ ((Cursor.mk (2 ^ 64 - 1) []).put 1).stores := by simp [Cursor.put, sizeAdd]
    unfold putControl
    cases reply.format with
    | normal => exact hone
    | extended =>
      dsimp only
      split
      · exact hone
      · exact Cursor.mem_put_left hone
  · obtain ⟨c, hc, hfilled⟩ := @header_filled reply.format reply.control _ _ hhops (not_lt.mp haddr)
    refine ⟨len, ?_, le_rfl⟩
    rw [replyStores, hc]
    exact hpayload ((hfilled.stores len).mpr hhdr)

theorem Frame.encodeStores_respects (hhops : frame.hops ≤ PATTY_AX25_MAX_HOPS) (hinfo : frame.infolen < 2 ^ 64)
    (hlen : len < 2 ^ 64) :
    (frame.encodeStores len).Respects frame.encodedSize len ↔ frame.LeavesRoom len := by
  obtain ⟨hlt, hsmall⟩ := @headerSize_le frame.format frame.control _ hhops
  unfold LeavesRoom
  by_cases haddr : len < (2 + frame.hops) * 7
  · rw [encodeStores, encodedSize, addressCursor, if_pos haddr]
    refine iff_of_true ⟨Nat.zero_le _, fun i hi => absurd hi List.not_mem_nil, fun _ => rfl, fun hle => ?_⟩ (.inl haddr)
    omega
  rw [or_iff_right haddr]
  by_cases hhdr : len < headerSize frame.hops frame.format frame.control
  · refine iff_of_false (not_respects (encodeStores_beyond hhops (not_lt.mp haddr) hhdr)) fun h => ?_
    exact absurd h.1 (not_le.mpr hhdr)
  rw [not_lt] at hhdr
  obtain ⟨c, hc, hfilled⟩ := @header_filled frame.format frame.control _ _ hhops (not_lt.mp haddr)
  rw [encodeStores, encodedSize, hc]
  dsimp only
  cases hpayload : frame.hasPayload with
  | false =>
    rw [hasPayload] at hpayload
    rw [hpayload, if_neg Bool.false_ne_true, if_neg Bool.false_ne_true, Nat.add_zero, filled_respects hfilled hhdr]
    exact iff_of_true (by omega) ⟨hhdr, fun h => nomatch h⟩
  | true =>
    have hiff := @putPayload_respects _ _ (controlPid frame.control) _ _ hfilled hhdr hsmall hinfo hlen
    rw [hasPayload] at hpayload
    rw [hpayload, if_pos rfl, if_pos rfl]
    exact ⟨fun h => ⟨hhdr, fun _ => hiff.mp h⟩, fun h => hiff.mpr (h.2 rfl)⟩

theorem replyStores_respects (hhops : frame.hops ≤ PATTY_AX25_MAX_HOPS) (hinfo : reply.infolen < 2 ^ 64)
    (hlen : len < 2 ^ 64) :
    (replyStores frame reply len).Respects (replySize frame reply) len ↔ ReplyRoom frame reply len := by
  obtain ⟨hlt, hsmall⟩ := @headerSize_le reply.format reply.control _ hhops
  unfold ReplyRoom
  by_cases hhdr : len < headerSize frame.hops reply.format reply.control
  · obtain ⟨i, hi, hle⟩ := replyStores_beyond hhops hhdr hlen
    refine iff_of_false (fun h => ?_) fun h => absurd h.1 (not_le.mpr hhdr)
    exact absurd (h.within i hi) (not_lt.mpr hle)
  rw [not_lt] at hhdr
  obtain ⟨c, hc, hfilled⟩ := @header_filled reply.format reply.control _ _ hhops (hlt.le.trans hhdr)
  rw [replyStores, replySize, hc, Option.getD_some]
  dsimp only
  cases controlPid reply.control with
  | false =>
    rw [if_neg Bool.false_ne_true, if_neg Bool.false_ne_true, Nat.add_zero, filled_respects hfilled hhdr]
    exact iff_of_true (by omega) ⟨hhdr, fun h => nomatch h⟩
  | true =>
    have hiff := @putPayload_respects _ _ true _ _ hfilled hhdr hsmall hinfo hlen
    rw [if_pos rfl, if_pos rfl]
    exact ⟨fun h => ⟨hhdr, fun _ => hiff.mp h⟩, fun h => hiff.mpr (h.2 rfl)⟩

/-! ## The XID information field -/

/-- The loop of `patty_ax25_frame_encode_xid` over its table, with `encode_xid_param`: whether no parameter has
failed. -/
def xidLoop (flags len : Nat) : List XidParam → Cursor → Cursor × Bool
  | [], c => (c, true)
  | v :: l, c =>
    if flags &&& 1 <<< v.1 = 0 then xidLoop flags len l c
    else if len < c.offset + 2 + v.2.1 ∨ 4 < v.2.1 then (c, false)
    else xidLoop flags len l (c.put (2 + v.2.1))

/-- `patty_ax25_frame_encode_xid`. The length of the group is stored last. -/
def xidStores (params : Params) (len : Nat) : Encoding :=
  let (c, ok) := xidLoop params.flags len (xidValues params) ⟨4, [0, 1]⟩
  if ok then ⟨len, c.stores ++ [2, 3], ssize c.offset⟩ else ⟨len, c.stores, -1⟩

/-- The parameters that are flagged. -/
def Params.flaggedValues (params : Params) : List XidParam :=
  (xidValues params).filter fun v => params.flags &&& 1 <<< v.1 != 0

/-- The octets of the information field. -/
def xidSize (params : Params) : Nat := 4 + (xidBody params.flaggedValues).length

/-- What the loop leaves behind the cursor `c`, and whether the octets `body` of the flagged parameters are stored:
otherwise they do not fit. -/
structure XidStored (len : Nat) (body : Bytes) (c c' : Cursor) (ok : Bool) : Prop where
  stores : ∀ i, i ∈ c'.stores ↔ i ∈ c.stores ∨ c.offset ≤ i ∧ i < c'.offset
  le : c.offset ≤ c'.offset
  fits : c'.offset = c.offset ∨ c'.offset ≤ len
  all : ok → c'.offset = c.offset + body.length
  failed : ok = false → body ≠ [] ∧ len < c.offset + body.length

theorem XidStored.same {body : Bytes} {ok : Bool} (hall : ok → body = [])
    (hfailed : ok = false → body ≠ [] ∧ len < c.offset + body.length) : XidStored len body c c ok where
  stores i := ⟨.inl, fun h => h.elim id fun h => by omega⟩
  le := le_rfl
  fits := .inl rfl
  all h := by rw [hall h]; rfl
  failed := hfailed

theorem xidLoop_stored {flags : Nat} {l : List XidParam} (hbytes : ∀ v ∈ l, v.2.1 ≤ 4)
    (hoff : c.offset + 6 * l.length < 2 ^ 64) :
    XidStored len (xidBody (l.filter fun v => flags &&& 1 <<< v.1 != 0)) c (xidLoop flags len l c).1
      (xidLoop flags len l c).2 := by
  induction l generalizing c with
  | nil => exact .same (fun _ => rfl) (nomatch ·)
  | cons v l ih =>
    rw [List.forall_mem_cons] at hbytes
    rw [List.length_cons] at hoff
    rw [xidLoop]
    by_cases hflag : flags &&& 1 <<< v.1 = 0
    · rw [if_pos hflag, List.filter_cons_of_neg (by simp [hflag])]
      exact ih hbytes.2 (by omega)
    have hlength : (xidBody (v :: l.filter fun v => flags &&& 1 <<< v.1 != 0)).length =
        2 + v.2.1 + (xidBody (l.filter fun v => flags &&& 1 <<< v.1 != 0)).length := by
      rw [xidBody_cons, List.length_append, length_encodeXidParam]
    have hne : xidBody (v :: l.filter fun v => flags &&& 1 <<< v.1 != 0) ≠ [] := by
      intro h
      rw [h, List.length_nil] at hlength
      omega
    have hfour := hbytes.1
    rw [if_neg hflag, List.filter_cons_of_pos (by simpa using hflag)]
    split
    · exact .same (nomatch ·) fun _ => ⟨hne, by omega⟩
    · have hput : (c.put (2 + v.2.1)).offset = c.offset + (2 + v.2.1) := sizeAdd_of_lt (by omega)
      have hrest := ih (c := c.put (2 + v.2.1)) hbytes.2 (by omega)
      have hle := hrest.le
      refine ⟨fun i => ?_, by omega, .inr ?_, fun h => ?_, fun h => ?_⟩
      · rw [hrest.stores, Cursor.mem_put_iff (by omega), hput, or_assoc]
        refine or_congr_right ?_
        omega
      · have hfits := hrest.fits
        omega
      · have hall := hrest.all h
        omega
      · obtain ⟨-, hfailed⟩ := hrest.failed h
        exact ⟨hne, by omega⟩

theorem xidValues_bytes (params : Params) : ∀ v ∈ xidValues params, v.2.1 ≤ 4 := by
  simp [xidValues, needbytes_le]

theorem length_flaggedValues (params : Params) : params.flaggedValues.length ≤ 6 := List.length_filter_le _ _

theorem xidBody_flagged (params : Params) : (xidBody params.flaggedValues).length ≤ 36 ∧
    (xidBody params.flaggedValues = [] ↔ params.flaggedValues = []) := by
  have hbytes : ∀ v ∈ params.flaggedValues, v.2.1 ≤ 4 := fun v hv =>
    xidValues_bytes params v (List.mem_of_mem_filter hv)
  have hlen := length_flaggedValues params
  refine ⟨(length_xidBody_le hbytes).trans (by omega), fun h => ?_, fun h => by rw [h]; rfl⟩
  · have hle := length_le_xidBody params.flaggedValues
    rw [h] at hle
    exact List.length_eq_zero_iff.mp (Nat.le_zero.mp hle)

/-- Room for the header of the group; or for its format and its type alone, where a parameter fails before the length
of the group is stored. -/
theorem xidStores_respects (params : Params) :
    (xidStores params len).Respects (xidSize params) len ↔ 4 ≤ len ∨ 2 ≤ len ∧ params.flaggedValues ≠ [] := by
  obtain ⟨hstores, hle, hfits, hall, hfailed⟩ :=
    @xidLoop_stored len ⟨4, [0, 1]⟩ params.flags (xidValues params) (xidValues_bytes params) (by simp [xidValues])
  obtain ⟨hsmall, hnil⟩ := xidBody_flagged params
  unfold xidStores xidSize
  rw [ne_eq, ← hnil]
  change _ → _ = 4 + (xidBody params.flaggedValues).length at hall
  change _ → xidBody params.flaggedValues ≠ [] ∧ _ < 4 + (xidBody params.flaggedValues).length at hfailed
  revert hstores hle hfits hall hfailed
  rcases xidLoop params.flags len (xidValues params) ⟨4, [0, 1]⟩ with ⟨c, ok⟩
  intro hstores hle hfits hall hfailed
  simp only [List.mem_cons, List.not_mem_nil, or_false] at hstores
  dsimp only at hle hfits hall hfailed ⊢
  cases ok with
  | true =>
    have hoff := hall rfl
    have hmem (i : Nat) : i ∈ c.stores ++ [2, 3] ↔ i < 4 + (xidBody params.flaggedValues).length := by
      simp only [List.mem_append, hstores, List.mem_cons, List.not_mem_nil, or_false]
      omega
    rw [if_pos rfl]
    by_cases hfour : 4 ≤ len
    · refine iff_of_true ⟨le_rfl, fun i hi => ?_, fun hlt => by omega, fun _ => ⟨?_, hmem⟩⟩ (.inl hfour)
      · have hlt := (hmem i).mp hi
        omega
      · rw [hoff]
        exact ssize_eq.mpr (by omega)
    · refine iff_of_false (fun h => hfour (h.within 3 ((hmem 3).mpr (by omega)))) ?_
      rintro (h | ⟨-, hne⟩)
      · exact hfour h
      · exact hne (List.length_eq_zero_iff.mp (by omega))
  | false =>
    obtain ⟨hne, hlt⟩ := hfailed rfl
    rw [if_neg Bool.false_ne_true]
    constructor
    · intro h
      exact .inr ⟨h.within 1 ((hstores 1).mpr (.inl (.inr rfl))), hne⟩
    · intro h
      refine ⟨le_rfl, fun i hi => ?_, fun _ => rfl, fun hge => by omega⟩
      have hi := (hstores i).mp hi
      omega

/-! ## The octets that are stored -/

/-- The indices agree with the octets of the encoder. -/
inductive Encoding.Agrees (e : Encoding) (len : Nat) : Except Fault (Option Bytes) → Prop
  | overrun (fault : Fault) : (∃ i ∈ e.stores, len ≤ i) → Agrees e len (.error fault)
  | refused : e.ret = -1 → (∀ i ∈ e.stores, i < len) → Agrees e len (.ok none)
  | stored (bs : Bytes) : e.ret = ssize bs.length → (∀ i, i ∈ e.stores ↔ i < bs.length) →
    Agrees e len (.ok (some bs))

theorem length_header (hhops : frame.hops ≤ PATTY_AX25_MAX_HOPS) (format : FrameFormat) (control : Nat) :
    (encodeAddress frame ++ encodeControl format control).length = headerSize frame.hops format control := by
  rw [List.length_append, encodeAddress_eq, length_addressOctets, length_hopList hhops, headerSize, Nat.mul_comm]

theorem infoBytes_length (h : frame.hasPayload) : frame.infoBytes.length = frame.infolen := by
  unfold Frame.hasPayload at h
  unfold Frame.infoBytes
  cases hinfo : frame.info with
  | none => simp [hinfo] at h
  | some m => exact Mem.length_read

theorem Frame.encode_agrees (hhops : frame.hops ≤ PATTY_AX25_MAX_HOPS) (hlen : len < 2 ^ 64) :
    (frame.encodeStores len).Agrees len (frame.encode len) := by
  obtain ⟨hlt, hsmall⟩ := @headerSize_le frame.format frame.control _ hhops
  have hheader := length_header hhops frame.format frame.control
  by_cases haddr : len < (2 + frame.hops) * 7
  · rw [encodeStores, encode, addressCursor, if_pos haddr, if_pos haddr]
    exact .refused rfl fun i hi => absurd hi List.not_mem_nil
  rw [encode, if_neg haddr]
  dsimp only
  rw [hheader]
  by_cases hhdr : len < headerSize frame.hops frame.format frame.control
  · rw [if_pos hhdr]
    exact .overrun _ ⟨len, encodeStores_beyond hhops (not_lt.mp haddr) hhdr, le_rfl⟩
  obtain ⟨c, hc, hfilled⟩ := @header_filled frame.format frame.control _ _ hhops (not_lt.mp haddr)
  rw [if_neg hhdr, encodeStores, hc]
  dsimp only
  cases hpayload : frame.hasPayload with
  | false =>
    rw [hasPayload] at hpayload
    rw [hpayload, if_neg Bool.false_ne_true, if_neg Bool.false_ne_true]
    refine .stored _ ?_ fun i => ?_
    · rw [hheader, hfilled.offset]
    · rw [hheader, hfilled.stores]
  | true =>
    have hbytes := infoBytes_length hpayload
    rw [hasPayload] at hpayload
    have hpid : (if controlPid frame.control then
        encodeAddress frame ++ encodeControl frame.format frame.control ++ [frame.proto]
        else encodeAddress frame ++ encodeControl frame.format frame.control).length =
          headerSize frame.hops frame.format frame.control + (controlPid frame.control).toNat := by
      cases controlPid frame.control with
      | true => rw [if_pos rfl, List.length_append, hheader]; rfl
      | false => rw [if_neg Bool.false_ne_true, hheader]; rfl
    have hone : sizeAdd 1 (headerSize frame.hops frame.format frame.control) =
        1 + headerSize frame.hops frame.format frame.control := sizeAdd_of_lt (by omega)
    have hput := @putPid_filled _ (controlPid frame.control) _ hfilled (by omega)
    rw [hpayload, if_pos rfl, if_pos rfl, hfilled.offset, hone]
    split
    · refine .refused rfl fun i hi => ?_
      have hi := (hfilled.stores i).mp hi
      omega
    change Encoding.Agrees _ _ (if len < (if controlPid frame.control then _ else _ : Bytes).length + _ then _ else
      .ok (some ((if controlPid frame.control then _ else _) ++ _)))
    rw [hpid]
    by_cases hbeyond : len < headerSize frame.hops frame.format frame.control + (controlPid frame.control).toNat +
        frame.infolen
    · rw [if_pos hbeyond]
      exact .overrun _ ⟨len, hput.mem_put hbeyond hlen, le_rfl⟩
    · rw [if_neg hbeyond]
      have hall := hput.put (k := frame.infolen) (by omega)
      refine .stored _ ?_ fun i => ?_
      · rw [List.length_append, hpid, hbytes, ← hall.offset]
      · rw [List.length_append, hpid, hbytes]
        exact hall.stores i

/-- An encoder that respects the length gives up exactly where there is no room for its octets. -/
theorem Encoding.Respects.agrees {e : Encoding} {size : Nat} (h : e.Respects size len) (bs : Bytes)
    (hbs : bs.length = size) (hsmall : size < 2 ^ 63) :
    e.Agrees len (.ok (if len < size then none else some bs)) := by
  split
  · rename_i hlt
    exact .refused (h.refuses hlt) h.within
  · rename_i hge
    obtain ⟨hret, hstores⟩ := h.returns (not_lt.mp hge)
    subst hbs
    exact .stored bs (hret.trans (ssize_eq.mpr hsmall).symm) hstores

theorem encodeXid_agrees (params : Params) (h : 4 ≤ len) :
    (xidStores params len).Agrees len (.ok (encodeXid params len)) := by
  have hsmall := (xidBody_flagged params).1
  refine ((xidStores_respects params).mpr (.inl h)).agrees (xidGroup params.flaggedValues) ?_ ?_
  · rw [xidGroup, xidSize]
    simp only [List.length_cons]
    omega
  · unfold xidSize
    omega

theorem encodeReplyTo_agrees {info : Bytes} (hhops : frame.hops ≤ PATTY_AX25_MAX_HOPS)
    (hformat : reply.format = .normal) (hinfo : info.length = reply.infolen) (hsize : reply.infolen + 73 < 2 ^ 63)
    (hlen : len < 2 ^ 64) :
    (replyStores frame reply len).Agrees len (encodeReplyTo frame reply.control reply.proto info len) := by
  have hsmall := (@headerSize_le reply.format reply.control _ hhops).2
  have hheader : headerSize frame.hops reply.format reply.control = (2 + frame.hops) * 7 + 1 := by
    rw [headerSize, hformat]
    rfl
  have hbuf : (encodeAddressReply frame ++ [UInt8.ofNat reply.control]).length = (2 + frame.hops) * 7 + 1 := by
    rw [List.length_append, encodeAddressReply_eq hhops, length_addressOctets, Frame.wayBack, List.length_reverse,
      length_hopList hhops, Nat.mul_comm]
    rfl
  rw [encodeReplyTo, ← hheader]
  by_cases hhdr : len < headerSize frame.hops reply.format reply.control
  · rw [if_pos hhdr]
    exact .overrun _ (replyStores_beyond hhops hhdr hlen)
  rw [if_neg hhdr]
  rw [hheader] at hhdr hsmall
  have hrespects : (replyStores frame reply len).Respects (replySize frame reply) len := by
    rw [replyStores_respects hhops (by omega) hlen, ReplyRoom, hheader]
    refine ⟨not_lt.mp hhdr, fun _ => ⟨by omega, fun h => absurd h (by decide), fun _ => ?_⟩⟩
    rw [Bool.toNat_true]
    omega
  dsimp only
  rw [hbuf, hinfo]
  cases hpid : controlPid reply.control with
  | false =>
    have hsize' : replySize frame reply = (2 + frame.hops) * 7 + 1 := by rw [replySize, hpid, hheader]; rfl
    rw [hsize'] at hrespects
    have hagrees := hrespects.agrees _ hbuf (by omega)
    rw [if_neg hhdr] at hagrees
    rw [controlPid] at hpid
    rw [hpid, if_neg Bool.false_ne_true]
    exact hagrees
  | true =>
    have hsize' : replySize frame reply = 1 + ((2 + frame.hops) * 7 + 1) + reply.infolen := by
      rw [replySize, hpid, hheader, if_pos rfl]
      omega
    rw [hsize'] at hrespects
    rw [controlPid] at hpid
    rw [hpid, if_pos rfl]
    have hagrees := hrespects.agrees (encodeAddressReply frame ++ [UInt8.ofNat reply.control] ++
      reply.proto :: info) (by rw [List.length_append, hbuf, List.length_cons, hinfo]; omega) (by omega)
    rwa [apply_ite Except.ok] at hagrees

/-! ## The encoders -/

/-- Each encoder respects the length of its buffer exactly where the buffer leaves room for what the encoder stores
unchecked. -/
theorem encoders_respect_iff (frame reply : Frame) (params : Params) (len : Nat)
    (hhops : frame.hops ≤ PATTY_AX25_MAX_HOPS) (hinfo : frame.infolen < 2 ^ 64) (hreply : reply.infolen < 2 ^ 64)
    (hlen : len < 2 ^ 64) :
    ((frame.encodeStores len).Respects frame.encodedSize len ↔ frame.LeavesRoom len) ∧
    ((replyStores frame reply len).Respects (replySize frame reply) len ↔ ReplyRoom frame reply len) ∧
    ((xidStores params len).Respects (xidSize params) len ↔ 4 ≤ len ∨ 2 ≤ len ∧ params.flaggedValues ≠ []) :=
  ⟨Frame.encodeStores_respects hhops hinfo hlen, replyStores_respects hhops hreply hlen, xidStores_respects params⟩

/-- A buffer of 64 octets is enough for a direct frame without information, for the reply to it, and for any XID. -/
theorem encoders_respect_sample : (Frame.blank.encodeStores 64).Respects 15 64 ∧
    (replyStores .blank .blank 64).Respects 16 64 ∧ ∀ params, (xidStores params 64).Respects (xidSize params) 64 := by
  have hiff (params : Params) :=
    encoders_respect_iff .blank .blank params 64 (by decide) (by decide) (by decide) (by decide)
  obtain ⟨hframe, hreply, -⟩ := hiff sampleParams
  refine ⟨hframe.mpr (.inr ⟨by decide, (nomatch ·)⟩), hreply.mpr ⟨by decide, fun _ => ?_⟩,
    fun params => (hiff params).2.2.mpr (.inl (by decide))⟩
  exact ⟨by decide, (nomatch ·), fun _ => by decide⟩

/-- A buffer that holds the addresses, and nothing behind them. -/
theorem not_encoders_respect : ¬((∀ (frame : Frame) (len : Nat), frame.hops ≤ PATTY_AX25_MAX_HOPS →
      frame.infolen < 2 ^ 64 → len < 2 ^ 64 → (frame.encodeStores len).Respects frame.encodedSize len) ∧
    (∀ (frame reply : Frame) (len : Nat), frame.hops ≤ PATTY_AX25_MAX_HOPS → reply.infolen < 2 ^ 64 →
      len < 2 ^ 64 → (replyStores frame reply len).Respects (replySize frame reply) len) ∧
    ∀ (params : Params) (len : Nat), (xidStores params len).Respects (xidSize params) len) := by
  rintro ⟨hframe, -, -⟩
  have hrespects := hframe .blank 14 (by decide) (by decide) (by decide)
  exact absurd (hrespects.within 14 (by decide)) (by decide)

end Patty
