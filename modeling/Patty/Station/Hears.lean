import Patty.Deeds.Calls
import Patty.Station

/-! # The server hears the frames that come out of the reads

The runs of the server that are given frames, one an event, are all that the runs of the server with its interfaces
come to: between the frames a driver only counts, copies what it has to the RAW sockets that listen, and fails. So
what is proved of the server that is given frames holds of the one that reads octets. -/

namespace Patty

open Prog Relation

/-- An interface without what its driver counts and whether it is up. -/
def Iface.served (iface : Iface) : Iface := { iface with stats := ⟨0, 0, 0, 0, 0⟩, status := .up }

/-- What a driver leaves alone. -/
def World.served (w : World) : Core × (Nat → Bytes) × Dict UInt32 Route × List Iface :=
  (w.core, w.inbox, w.routes, w.ifaces.map Iface.served)

/-- What a driver does: it may copy a frame, and close the descriptor of its interface. It never takes an interface up
again. -/
structure World.Drives (w w' : World) : Prop where
  served : w'.served = w.served
  running : w'.running → w.running
  up : ∀ i mru, w'.Up i mru → w.Up i mru
  log : w'.log = w.log ∨ ∃ fd bs, w'.log = w.log ++ [.promisc fd bs]
  fds : w'.fds = w.fds ∨ ∃ iface ∈ w.ifaces, w'.fds = w.fds.erase iface.fd

theorem World.Drives.of_eq {w w' : World} (hserved : w'.served = w.served) (hrunning : w'.running = w.running)
    (hifaces : w'.ifaces = w.ifaces) (hlog : w'.log = w.log ∨ ∃ fd bs, w'.log = w.log ++ [.promisc fd bs])
    (hfds : w'.fds = w.fds ∨ ∃ iface ∈ w.ifaces, w'.fds = w.fds.erase iface.fd) : w.Drives w' := by
  refine ⟨hserved, fun h => hrunning ▸ h, fun i mru => ?_, hlog, hfds⟩
  rw [World.Up, hifaces]
  exact fun h => h

/-- The server, with the frames that it has been given from each interface. -/
structure Hearing where
  world : World
  heard : Nat → List Bytes

/-- A step of the server that is given frames, or of a driver. -/
inductive Hearing.Step (h : Hearing) : Hearing → Prop
  | event {event : Event} {sys : Sys} {w' : World} (hevent : ∀ i buf len, event ≠ .frame i buf len)
      (hstep : h.world.Step ⟨event, sys⟩ w') : Step h { h with world := w' }
  | frame {i len : Nat} {buf : Mem} {sys : Sys} {w' : World} (hstep : h.world.Step ⟨.frame i buf len, sys⟩ w') :
      Step h ⟨w', Function.update h.heard i (h.heard i ++ [buf.read 0 len])⟩
  | drives {w' : World} (hdrives : h.world.Drives w') : Step h { h with world := w' }

namespace M

variable {α : Type} {i fuel len : Nat} {buf : Mem} {port port' : Port} {frames : List Bytes} {r : Int} {w w' : World}

abbrev Driving (m : M α) : Prop := Walks World.Drives (fun _ => True) m

theorem driving_modify {g : World → World} (h : ∀ w, (g w).served = w.served ∧ (g w).running = w.running ∧
    (g w).ifaces = w.ifaces ∧ (g w).log = w.log ∧ (g w).fds = w.fds) : Driving (Prog.modify g) := by
  refine .modify fun w _ => ?_
  obtain ⟨hserved, hrunning, hifaces, hlog, hfds⟩ := h w
  exact .of_eq hserved hrunning hifaces (.inl hlog) (.inl hfds)

theorem driving_setErrno {e : Errno} : Driving (setErrno e) := driving_modify fun _ => ⟨rfl, rfl, rfl, rfl, rfl⟩

theorem driving_fdClear {fd : Nat} : Driving (fdClear fd) := driving_modify fun _ => ⟨rfl, rfl, rfl, rfl, rfl⟩

theorem driving_getIface : Driving (getIface i) := by
  refine Walks.get.bind fun w => ?_
  cases w.ifaces[i]? with
  | none => exact .fault
  | some iface => exact .pure

theorem driving_setIface {f : Iface → Iface} (hf : ∀ iface, (f iface).served = iface.served)
    (hup : ∀ iface, (f iface).status = .up → iface.status = .up) : Driving (setIface i f) := by
  have hmru (iface : Iface) : (f iface).mru = iface.mru := by
    have h := congrArg Iface.mru (hf iface)
    exact h
  exact .modify fun w _ => ⟨congrArg (w.core, w.inbox, w.routes, ·) (map_modify_same Iface.served hf w.ifaces i),
    fun h => h, fun j mru => up_of_modify hmru hup rfl, .inl rfl, .inl rfl⟩

theorem driving_writePty {fd : Nat} {bs : Bytes} : Driving (writePty (.promisc fd bs)) := by
  have hanswer : Driving (answer (·.ptyWrite) (fun sys l => { sys with ptyWrite := l }) none) := by
    apply Walks.one
    intro w a w' _ h
    unfold answer at h
    split at h
    · cases h
      exact .of_eq rfl rfl rfl (.inl rfl) (.inl rfl)
    · cases h
      exact .of_eq rfl rfl rfl (.inl rfl) (.inl rfl)
  refine hanswer.bind fun a => ?_
  cases a with
  | none => exact Walks.bind (.modify fun _ _ => .of_eq rfl rfl rfl (.inr ⟨fd, bs, rfl⟩) (.inl rfl)) fun _ => .pure
  | some e => exact driving_setErrno.bind fun _ => .pure

theorem driving_ifFlush {frame : Bytes} : Driving (ifFlush i frame) :=
  .ite .pure (driving_getIface.bind fun _ => Walks.bind (driving_setIface (by intro; rfl) fun _ h => h) fun _ =>
    (Walks.forEach fun _ _ => driving_writePty.bind fun _ => .ite .pure .pure).bind fun _ => .ite .pure .pure)

theorem driving_frameResult : Driving (frameResult i r) :=
  Walks.get.bind fun _ => .ite (driving_getIface.bind fun _ =>
    Walks.bind (driving_setIface (by intro; rfl) (by intro _ h; cases h)) fun _ =>
      driving_fdClear.bind fun _ => .pure) .pure

theorem outer_ifFlush {frame : Bytes} : Outer (ifFlush i frame) :=
  .ite .pure (outer_getIface.bind fun _ => Walks.bind (outer_setIface (by intro; rfl)) fun _ =>
    (Walks.forEach fun _ _ => outer_handlePromiscFrame).bind fun _ => .ite .pure .pure)

/-! ## A round of the loop -/

/-- What a round of the loop of `handle_iface` can come to. -/
inductive Round (i fuel : Nat) (port : Port) (w : World) : Int → Port → List Bytes → World → Prop
  /-- The driver finds an octet that it cannot take. -/
  | broken {iface : Iface} {x : Int} {tnc : Tnc} {rxBuf : Mem} (hiface : w.ifaces[i]? = some iface)
      (hdrain : port.tnc.drain port.rxBuf iface.mru = .ok (x, tnc, rxBuf)) (hx : x < 0) :
      Round i fuel port w (-1) ⟨tnc, rxBuf⟩ [] { w with errno := .eio }
  | idle {iface : Iface} {x : Int} {tnc : Tnc} {rxBuf : Mem} (hiface : w.ifaces[i]? = some iface)
      (hdrain : port.tnc.drain port.rxBuf iface.mru = .ok (x, tnc, rxBuf)) (hx : ¬x < 0)
      (hpending : tnc.pending = false) : Round i fuel port w 0 ⟨tnc, rxBuf⟩ [] w
  /-- Copying the frame fails. -/
  | uncopied {iface : Iface} {x n : Int} {tnc : Tnc} {rxBuf : Mem} {w₁ : World} (hiface : w.ifaces[i]? = some iface)
      (hdrain : port.tnc.drain port.rxBuf iface.mru = .ok (x, tnc, rxBuf)) (hx : ¬x < 0) (hpending : tnc.pending = true)
      (hflush : ifFlush i (rxBuf.read 0 tnc.flush.1) w = .ok (n, w₁)) (hn : n < 0) :
      Round i fuel port w (-1) ⟨tnc.flush.2, rxBuf⟩ [] w₁
  /-- Handling the frame fails. -/
  | refused {iface : Iface} {x n k : Int} {tnc : Tnc} {rxBuf : Mem} {w₁ w₂ : World} (hiface : w.ifaces[i]? = some iface)
      (hdrain : port.tnc.drain port.rxBuf iface.mru = .ok (x, tnc, rxBuf)) (hx : ¬x < 0) (hpending : tnc.pending = true)
      (hflush : ifFlush i (rxBuf.read 0 tnc.flush.1) w = .ok (n, w₁)) (hn : ¬n < 0)
      (hframe : handleFrame i rxBuf tnc.flush.1 w₁ = .ok (k, w₂)) (hk : k < 0) :
      Round i fuel port w (-1) ⟨tnc.flush.2, rxBuf⟩ [rxBuf.read 0 tnc.flush.1] w₂
  | next {iface : Iface} {x n k r : Int} {tnc : Tnc} {rxBuf : Mem} {w₁ w₂ w' : World} {port' : Port}
      {frames : List Bytes} (hiface : w.ifaces[i]? = some iface)
      (hdrain : port.tnc.drain port.rxBuf iface.mru = .ok (x, tnc, rxBuf)) (hx : ¬x < 0) (hpending : tnc.pending = true)
      (hflush : ifFlush i (rxBuf.read 0 tnc.flush.1) w = .ok (n, w₁)) (hn : ¬n < 0)
      (hframe : handleFrame i rxBuf tnc.flush.1 w₁ = .ok (k, w₂)) (hk : ¬k < 0)
      (hloop : ifaceLoop i fuel ⟨tnc.flush.2, rxBuf⟩ w₂ = .ok ((r, port', frames), w')) :
      Round i fuel port w r port' (rxBuf.read 0 tnc.flush.1 :: frames) w'

theorem getIface_ok {iface : Iface} (h : getIface i w = .ok (iface, w')) : w.ifaces[i]? = some iface ∧ w' = w := by
  have hwp : wp (getIface i) (fun iface w' => w.ifaces[i]? = some iface ∧ w' = w) (fun _ => True) w := by
    rw [wp_getIface]
    exact ⟨fun _ hi => ⟨hi, rfl⟩, fun _ => trivial⟩
  exact hwp.ok h

theorem lift_ok {x : Except Fault α} {a : α} (h : lift x w = .ok (a, w')) : x = .ok a ∧ w' = w := by
  cases x with
  | error e => cases h
  | ok b =>
    cases h
    exact ⟨rfl, rfl⟩

theorem ifaceLoop_round (h : ifaceLoop i (fuel + 1) port w = .ok ((r, port', frames), w')) :
    Round i fuel port w r port' frames w' := by
  obtain ⟨iface, w₀, hget, h₁⟩ := bind_eq_ok.mp h
  obtain ⟨⟨x, tnc, rxBuf⟩, w₀', hlift, h₂⟩ := bind_eq_ok.mp h₁
  obtain ⟨hiface, rfl⟩ := getIface_ok hget
  obtain ⟨hdrain, rfl⟩ := lift_ok hlift
  dsimp only at h₂
  split_ifs at h₂ with hx hpending
  · cases h₂
    exact .broken hiface hdrain hx
  · cases h₂
    exact .idle hiface hdrain hx (by simpa using hpending)
  · have hpending : tnc.pending = true := by simpa using hpending
    obtain ⟨n, w₁, hflush, h₃⟩ := bind_eq_ok.mp h₂
    split_ifs at h₃ with hn
    · cases h₃
      exact .uncopied hiface hdrain hx hpending hflush hn
    · obtain ⟨k, w₂, hframe, h₄⟩ := bind_eq_ok.mp h₃
      split_ifs at h₄ with hk
      · cases h₄
        exact .refused hiface hdrain hx hpending hflush hn hframe hk
      · obtain ⟨⟨r, port', frames⟩, _, hloop, h₅⟩ := bind_eq_ok.mp h₄
        cases h₅
        exact .next hiface hdrain hx hpending hflush hn hframe hk hloop

/-! ## A turn of an interface -/

/-- What `handle_iface` can come to. -/
inductive Turn (i : Nat) (port : Port) (w : World) : Int → Port → Bytes → List Bytes → World → Prop
  | idle : Turn i port w 0 port [] [] w
  /-- Reading fails. -/
  | failed {w' : World} (hw' : ReflTransGen World.Drives w w') : Turn i port w (-1) port [] [] w'
  /-- The other end has closed. -/
  | closed {w' : World} (hw' : ReflTransGen World.Drives w w') :
      Turn i port w 0 { port with tnc := port.tnc.fill [] } [] [] w'
  | read {iface : Iface} {bs : Bytes} {r : Int} {port' : Port} {frames : List Bytes} {w' : World}
      (hiface : w.ifaces[i]? = some iface) (hup : iface.status = .up) (hbs : bs ≠ [])
      (hlen : bs.length ≤ PATTY_KISS_TNC_BUFSZ)
      (hloop : ifaceLoop i (PATTY_KISS_TNC_BUFSZ + 1) { port with tnc := port.tnc.fill bs } w =
        .ok ((r, port', frames), w')) : Turn i port w r port' bs frames w'

theorem handleIface_turn {inp : Except Errno Bytes} {bs : Bytes}
    (h : handleIface i port inp w = .ok ((r, port', bs, frames), w')) : Turn i port w r port' bs frames w' := by
  obtain ⟨iface, w₀, hget, h₁⟩ := bind_eq_ok.mp h
  obtain ⟨hi, hw₀⟩ := getIface_ok hget
  subst hw₀
  rw [bind_run, get_run] at h₁
  dsimp only at h₁
  split_ifs at h₁ with hready
  · cases h₁
    exact .idle
  · rw [not_or, not_not] at hready
    cases inp with
    | error e =>
      have hdriving : Driving (do
          fdClear iface.fd
          setErrno .zero
          setIface i fun iface => { iface with status := .error }
          pure (-1, port, [], []) : M (Int × Port × Bytes × List Bytes)) :=
        driving_fdClear.bind fun _ => driving_setErrno.bind fun _ =>
          Walks.bind (driving_setIface (by intro; rfl) (by intro _ h; cases h)) fun _ => .pure
      have hw' := hdriving _ _ w' trivial h₁
      cases h₁
      exact .failed hw'
    | ok octets =>
      cases octets with
      | nil =>
        have hclose : w₀.Drives { w₀ with fds := w₀.fds.erase iface.fd } :=
          .of_eq rfl rfl rfl (.inl rfl) (.inr ⟨iface, List.mem_of_getElem? hi, rfl⟩)
        have hdriving : Driving (do
            fdClear iface.fd
            pure (0, { port with tnc := port.tnc.fill [] }, [], []) : M (Int × Port × Bytes × List Bytes)) :=
          driving_fdClear.bind fun _ => .pure
        have hw' := hdriving { w₀ with fds := w₀.fds.erase iface.fd } _ w' trivial h₁
        cases h₁
        exact .closed (.head hclose hw')
      | cons c octets =>
        obtain ⟨⟨r', port₁, frames'⟩, w₁, hloop, h₂⟩ := bind_eq_ok.mp h₁
        cases h₂
        refine .read hi hready.1 ?_ (List.length_take_le ..) hloop
        exact List.cons_ne_nil c _

/-- What keeps the wiring leaves an interface up. -/
theorem up_of_wiring {m : M α} {a : α} {mru : Nat} (hm : Leaves World.wiring m) (h : m w = .ok (a, w'))
    (hrunning : w.running) (hup : w.Up i mru) : w'.running ∧ w'.Up i mru := by
  have hwiring := hm w a w' h
  refine ⟨(congrArg Prod.fst hwiring).trans hrunning, ?_⟩
  rw [World.up_iff_wiring, hwiring, ← World.up_iff_wiring]
  exact hup

theorem ifFlush_wiring {frame : Bytes} : Leaves World.wiring (ifFlush i frame) :=
  fun w a w' h => (older_deeds (outer_ifFlush.does w a w' trivial h)).wiring

/-! ## The end of a turn -/

theorem frameResult_nonneg (hr : 0 ≤ r) : frameResult i r w = .ok (r, w) := by
  rw [frameResult, bind_run, get_run]
  dsimp only
  rw [if_neg fun h => absurd h.1 (Int.not_lt.mpr hr)]
  rfl

/-- All that counts of what failed is that it has. -/
theorem frameResult_failed {y : Int} (hr : r < 0) (h : frameResult i (-1) w = .ok (y, w')) :
    ∃ y', frameResult i r w = .ok (y', w') ∧ (y' < 0 ↔ y < 0) := by
  rw [frameResult, bind_run, get_run] at h ⊢
  dsimp only at h ⊢
  by_cases he : w.errno = .eio
  · rw [if_pos ⟨by decide, he⟩] at h
    rw [if_pos ⟨hr, he⟩]
    exact ⟨y, h, Iff.rfl⟩
  · rw [if_neg fun h => he h.2] at h ⊢
    cases h
    exact ⟨r, rfl, iff_of_true hr (by decide)⟩

end M

/-- The server stops where a turn has failed. -/
def World.endOf (w : World) (y : Int) : World := if y < 0 then { w with running := false } else w

/-- Where a turn has failed, the server stops or the interface is down. -/
theorem down_of_failed {w w' : World} {i mru : Nat} {r y : Int} (hr : r < 0)
    (h : M.frameResult i r w = .ok (y, w')) (hrunning : (w'.endOf y).running) : ¬(w'.endOf y).Up i mru := by
  rw [M.frameResult, bind_run, get_run] at h
  dsimp only at h
  split_ifs at h with he
  · obtain ⟨iface, w₀, hget, h₁⟩ := bind_eq_ok.mp h
    obtain ⟨-, rfl⟩ := M.getIface_ok hget
    cases h₁
    rintro ⟨iface', hi', -, hstatus⟩
    change (w₀.ifaces.modify i fun iface => { iface with status := .down })[i]? = some iface' at hi'
    rw [List.getElem?_modify] at hi'
    obtain ⟨iface₀, -, hdown⟩ := Option.map_eq_some_iff.mp hi'
    rw [if_pos rfl] at hdown
    subst hdown
    cases hstatus
  · cases h
    rw [World.endOf, if_pos hr] at hrunning
    cases hrunning

theorem drives_endOf {w : World} {y : Int} : w.Drives (w.endOf y) := by
  rw [World.endOf]
  split
  · exact ⟨rfl, fun h => absurd h Bool.false_ne_true, fun _ _ h => h, .inl rfl, .inl rfl⟩
  · exact .of_eq rfl rfl rfl (.inl rfl) (.inl rfl)

/-- A frame that an interface delivers is an event. -/
theorem step_frame {w w₁ w₂ : World} {i len mru : Nat} {buf : Mem} {r y : Int} (hrunning : w.running)
    (hup : w.Up i mru) (h : M.handleFrame i buf len w = .ok (r, w₁)) (hend : M.frameResult i r w₁ = .ok (y, w₂)) :
    w.Step ⟨.frame i buf len, w.sys⟩ (w₂.endOf y) := by
  obtain ⟨iface, hi, -, hstatus⟩ := hup
  have hevent : M.handleEvent (.frame i buf len) w = .ok (y, w₂) := by
    rw [M.handleEvent, bind_run, get_run]
    dsimp only
    rw [hi]
    dsimp only
    rw [if_neg (not_not_intro hstatus), bind_ok h]
    exact hend
  refine World.step_iff.mpr ⟨hrunning, ?_⟩
  rw [M.handleInput, bind_run, modify_run]
  dsimp only
  rw [bind_ok hevent, World.endOf]
  split <;> rfl

/-! ## The turn of an interface -/

section

variable {heard : Nat → List Bytes} {i fuel mru : Nat} {port port' : Port} {frames : List Bytes} {r y : Int}
  {w w' w'' : World}

theorem hears_drives (h : ReflTransGen World.Drives w w') :
    ReflTransGen Hearing.Step ⟨w, heard⟩ ⟨w', heard⟩ := by
  induction h with
  | refl => exact .refl
  | tail _ hdrives ih => exact ih.tail (.drives hdrives)

/-- Where nothing is handed on before a turn ends, only the driver does something. -/
theorem hears_end (h : ReflTransGen World.Drives w w') (hend : M.frameResult i r w' = .ok (y, w'')) :
    ReflTransGen Hearing.Step ⟨w, heard⟩ ⟨w''.endOf y, Function.update heard i (heard i ++ [])⟩ := by
  rw [List.append_nil, Function.update_eq_self]
  exact hears_drives ((h.trans (M.driving_frameResult w' y w'' trivial hend)).tail drives_endOf)

theorem ifaceLoop_hears (hrunning : w.running) (hup : w.Up i mru)
    (h : M.ifaceLoop i fuel port w = .ok ((r, port', frames), w')) (hend : M.frameResult i r w' = .ok (y, w'')) :
    ReflTransGen Hearing.Step ⟨w, heard⟩ ⟨w''.endOf y, Function.update heard i (heard i ++ frames)⟩ := by
  induction fuel generalizing w port r port' frames heard with
  | zero =>
    cases h
    exact hears_end .refl hend
  | succ fuel ih =>
    cases M.ifaceLoop_round h with
    | broken =>
      have herrno : w.Drives { w with errno := .eio } := .of_eq rfl rfl rfl (.inl rfl) (.inl rfl)
      exact hears_end (.single herrno) hend
    | idle => exact hears_end .refl hend
    | uncopied _ _ _ _ hflush => exact hears_end (M.driving_ifFlush w _ w' trivial hflush) hend
    | @refused _ _ _ k tnc rxBuf w₁ w₂ _ _ _ _ hflush hn hframe hk =>
      obtain ⟨hrunning₁, hup₁⟩ := M.up_of_wiring M.ifFlush_wiring hflush hrunning hup
      obtain ⟨y', hend', hy⟩ := M.frameResult_failed hk hend
      have hsame : w''.endOf y' = w''.endOf y := if_congr hy rfl rfl
      have hstep := hsame ▸ step_frame hrunning₁ hup₁ hframe hend'
      exact (hears_drives (M.driving_ifFlush w _ w₁ trivial hflush)).tail (.frame hstep)
    | @next _ _ _ k _ tnc rxBuf w₁ w₂ _ _ frames _ _ _ _ hflush hn hframe hk hloop =>
      obtain ⟨hrunning₁, hup₁⟩ := M.up_of_wiring M.ifFlush_wiring hflush hrunning hup
      obtain ⟨hrunning₂, hup₂⟩ := M.up_of_wiring M.handleFrame_wiring hframe hrunning₁ hup₁
      have hstep : w₁.Step ⟨.frame i rxBuf tnc.flush.1, w₁.sys⟩ w₂ := by
        have hstep := step_frame hrunning₁ hup₁ hframe (M.frameResult_nonneg (Int.not_lt.mp hk))
        rwa [World.endOf, if_neg hk] at hstep
      have hrest := @ih (Function.update heard i (heard i ++ [rxBuf.read 0 tnc.flush.1])) _ _ _ _ _
        hrunning₂ hup₂ hloop hend
      rw [Function.update_self, List.append_assoc, Function.update_idem] at hrest
      exact ((hears_drives (M.driving_ifFlush w _ w₁ trivial hflush)).tail (.frame hstep)).trans hrest

theorem handleIface_hears {inp : Except Errno Bytes} {bs : Bytes} (hrunning : w.running)
    (h : M.handleIface i port inp w = .ok ((r, port', bs, frames), w')) (hend : M.frameResult i r w' = .ok (y, w'')) :
    ReflTransGen Hearing.Step ⟨w, heard⟩ ⟨w''.endOf y, Function.update heard i (heard i ++ frames)⟩ := by
  cases M.handleIface_turn h with
  | idle => exact hears_end .refl hend
  | failed hw' => exact hears_end hw' hend
  | closed hw' => exact hears_end hw' hend
  | read hiface hup _ _ hloop => exact ifaceLoop_hears hrunning ⟨_, hiface, rfl, hup⟩ hloop hend

end

/-! ## Runs -/

theorem step_up {w w' : World} {inp : Input} (h : w.Step inp w') (hrunning : w'.running) (i mru : Nat)
    (hup : w'.Up i mru) : w.Up i mru := by
  rcases goes_step h with ⟨w₁, hends, hgoes⟩ | ⟨hstopped, -⟩
  · have hup₁ := hends.up i mru hup
    rcases hgoes with ⟨hdeeds, -⟩ | ⟨client, n, ⟨w₂, r, hdeeds, -, hold, -⟩, -⟩
    · exact (older_deeds hdeeds).up.mp hup₁
    · exact (older_deeds hdeeds).up.mp (hold.up.mp hup₁)
  · exact absurd (hstopped.symm.trans hrunning) Bool.false_ne_true

/-- No interface is ever taken up. -/
theorem hearing_up {a b : Hearing} (h : ReflTransGen Hearing.Step a b) (hrunning : b.world.running) :
    a.world.running ∧ ∀ i mru, b.world.Up i mru → a.world.Up i mru := by
  induction h with
  | refl => exact ⟨hrunning, fun _ _ h => h⟩
  | tail _ hstep ih =>
    have hback {w₁ w₂ : World} (hr : w₁.running) (hup : ∀ i mru, w₂.Up i mru → w₁.Up i mru)
        (ih : w₁.running → a.world.running ∧ ∀ i mru, w₁.Up i mru → a.world.Up i mru) :
        a.world.running ∧ ∀ i mru, w₂.Up i mru → a.world.Up i mru :=
      ⟨(ih hr).1, fun i mru h => (ih hr).2 i mru (hup i mru h)⟩
    cases hstep with
    | event _ hst => exact hback (World.step_iff.mp hst).1 (step_up hst hrunning) ih
    | frame hst => exact hback (World.step_iff.mp hst).1 (step_up hst hrunning) ih
    | drives hd => exact hback (hd.running hrunning) hd.up ih

theorem hears_step {st st' : Station} {x : Signal × Sys} (h : st.Step x st') :
    ReflTransGen Hearing.Step ⟨st.world, st.heard⟩ ⟨st'.world, st'.heard⟩ := by
  obtain ⟨signal, sys⟩ := x
  cases signal with
  | event event =>
    have hevent (hframe : ∀ i buf len, event ≠ .frame i buf len)
        (h : (st.world.exec ⟨event, sys⟩).map (fun world => { st with world }) = some st') :
        ReflTransGen Hearing.Step ⟨st.world, st.heard⟩ ⟨st'.world, st'.heard⟩ := by
      obtain ⟨w', hw', rfl⟩ := Option.map_eq_some_iff.mp h
      exact .single (.event hframe hw')
    cases event with
    | frame i buf len => cases h
    | sock | client | write | accept => exact hevent (by intro _ _ _ h; cases h) h
  | read i inp =>
    rw [Station.Step, Station.exec, Station.read] at h
    dsimp only at h
    split_ifs at h with hrunning
    split at h
    · cases h
    · next r port bs frames w hturn =>
      cases h
      obtain ⟨⟨r', port', bs', frames'⟩, w₁, hiface, hresult⟩ := bind_eq_ok.mp hturn
      obtain ⟨y, w₂, hend, hpure⟩ := bind_eq_ok.mp hresult
      cases hpure
      have hsys : st.world.Drives { st.world with sys } := .of_eq rfl rfl rfl (.inl rfl) (.inl rfl)
      exact .head (.drives hsys) (handleIface_hears hrunning hiface hend)

/-- The server with its interfaces does what the server does that is given the frames it hears. -/
theorem hears_run {C : Station → Signal × Sys → Prop} {c : Config} {ports : Nat → Port} {st : Station}
    (h : Run Station.Step C (.start c ports) st) :
    ReflTransGen Hearing.Step ⟨.start c, fun _ => []⟩ ⟨st.world, st.heard⟩ := by
  induction h with
  | refl => exact .refl
  | tail _ _ hstep ih => exact ih.trans (hears_step hstep)

end Patty
