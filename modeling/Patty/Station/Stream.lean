import Patty.Station.Hears
import Patty.Upkeep.Outstanding

/-! # What the interfaces are sent is what the server hears

The frames that an interface hands on are those that the decoder finds in the octets it has read, however the reads
divide them and whatever happens in between, up to the one at which it fails. So KISS carries frames to the server
unchanged (`station_run`). -/

namespace Patty

open Prog Relation Chunks

variable {i fuel mru : Nat} {port port' : Port} {frames ps : List Bytes} {r : Int} {w w' : World}

namespace Tnc

variable {len : Nat} {tnc tnc₁ tnc' : Tnc} {out out₁ out' : Mem} {x : Int}

theorem ifaceLoop_idle (hdrain : tnc.drain out len = .ok (x, tnc₁, out₁)) (hx : ¬x < 0)
    (hpending : tnc₁.pending = false) : ifaceLoop len (fuel + 1) tnc out = .ok (true, [], tnc₁, out₁) := by
  rw [ifaceLoop, hdrain]
  dsimp only
  rw [if_neg hx, hpending]
  rfl

theorem ifaceLoop_pending (hdrain : tnc.drain out len = .ok (x, tnc₁, out₁)) (hx : ¬x < 0)
    (hpending : tnc₁.pending = true) (h : ifaceLoop len (fuel + 1) tnc out = .ok (true, ps, tnc', out')) :
    ∃ ps', ps = out₁.read 0 tnc₁.flush.1 :: ps' ∧
      ifaceLoop len fuel tnc₁.flush.2 out₁ = .ok (true, ps', tnc', out') := by
  rw [ifaceLoop, hdrain] at h
  dsimp only at h
  rw [if_neg hx, hpending] at h
  cases hrest : ifaceLoop len fuel tnc₁.flush.2 out₁ with
  | error e =>
    rw [hrest] at h
    cases h
  | ok y =>
    obtain ⟨ok, payloads, tnc₂, out₂⟩ := y
    rw [hrest] at h
    cases h
    exact ⟨payloads, rfl, rfl⟩

end Tnc

theorem mru_of_up {iface : Iface} (hup : w.Up i mru) (hi : w.ifaces[i]? = some iface) : iface.mru = mru := by
  obtain ⟨iface', hi', hmru, -⟩ := hup
  cases hi.symm.trans hi'
  exact hmru

/-- The loop hands on what the decoder gives it, up to the frame at which it fails. -/
theorem ifaceLoop_takes {tnc' : Tnc} {out' : Mem} (hrunning : w.running) (hup : w.Up i mru)
    (h : M.ifaceLoop i fuel port w = .ok ((r, port', frames), w'))
    (hloop : Tnc.ifaceLoop mru fuel port.tnc port.rxBuf = .ok (true, ps, tnc', out')) :
    frames <+: ps ∧ (0 ≤ r → frames = ps ∧ port' = ⟨tnc', out'⟩) := by
  induction fuel generalizing w port r port' frames ps with
  | zero =>
    cases h
    cases hloop
    exact ⟨List.nil_prefix, fun _ => ⟨rfl, rfl⟩⟩
  | succ fuel ih =>
    have hfails {frames : List Bytes} (hframes : frames <+: ps) :
        frames <+: ps ∧ (0 ≤ (-1 : Int) → frames = ps ∧ port' = ⟨tnc', out'⟩) :=
      ⟨hframes, fun h => absurd h (by decide)⟩
    cases M.ifaceLoop_round h with
    | broken => exact hfails List.nil_prefix
    | uncopied => exact hfails List.nil_prefix
    | idle hiface hdrain hx hpending =>
      rw [mru_of_up hup hiface] at hdrain
      rw [Tnc.ifaceLoop_idle hdrain hx hpending] at hloop
      cases hloop
      exact ⟨List.nil_prefix, fun _ => ⟨rfl, rfl⟩⟩
    | refused hiface hdrain hx hpending =>
      rw [mru_of_up hup hiface] at hdrain
      obtain ⟨ps', rfl, -⟩ := Tnc.ifaceLoop_pending hdrain hx hpending hloop
      exact hfails (List.prefix_append _ ps')
    | next hiface hdrain hx hpending hflush _ hframe _ hrest =>
      rw [mru_of_up hup hiface] at hdrain
      obtain ⟨ps', rfl, hloop'⟩ := Tnc.ifaceLoop_pending hdrain hx hpending hloop
      obtain ⟨hrunning₁, hup₁⟩ := M.up_of_wiring M.ifFlush_wiring hflush hrunning hup
      obtain ⟨hrunning₂, hup₂⟩ := M.up_of_wiring M.handleFrame_wiring hframe hrunning₁ hup₁
      obtain ⟨hfirst, hdone⟩ := ih hrunning₂ hup₂ hrest hloop'
      refine ⟨List.prefix_cons_inj _ |>.mpr hfirst, fun hr => ?_⟩
      obtain ⟨hframes, hport⟩ := hdone hr
      exact ⟨congrArg _ hframes, hport⟩

/-! ## The turn of an interface -/

/-- A turn hands on frames that the decoder finds in what it reads, all of them unless it fails, and then it is where
the decoder is. -/
theorem handleIface_takes {inp : Except Errno Bytes} {bs : Bytes} {ms : List (UInt8 × Bool)} {payloads : List Bytes}
    {d : Dec} (hrunning : w.running) (hmru : ∀ mru', w.Up i mru' → mru' = mru)
    (h : M.handleIface i port inp w = .ok ((r, port', bs, frames), w')) (hfits : port.tnc.Fits mru)
    (hrun : Dec.run mru false false (port.tnc.dec port.rxBuf) (marks bs ++ ms) = some (payloads, d)) :
    frames <+: payloads ∧ (0 ≤ r → port'.tnc.Fits mru ∧ ∃ more,
      Dec.run mru false false (port'.tnc.dec port'.rxBuf) ms = some (more, d) ∧ payloads = frames ++ more) := by
  cases M.handleIface_turn h with
  | idle => exact ⟨List.nil_prefix, fun _ => ⟨hfits, payloads, hrun, rfl⟩⟩
  | failed => exact ⟨List.nil_prefix, fun h => absurd h (by decide)⟩
  | closed => exact ⟨List.nil_prefix, fun _ => ⟨Tnc.fill_fits hfits (Nat.zero_le _), payloads, hrun, rfl⟩⟩
  | @read iface _ _ _ _ _ hiface hup hbs hlen hloop =>
    have hup' : w.Up i mru := by
      have hup' : w.Up i iface.mru := ⟨iface, hiface, rfl, hup⟩
      exact hmru _ hup' ▸ hup'
    obtain ⟨ps, tnc', out', more, hloop', hfits', hmore, rfl⟩ := @Tnc.ifaceLoop_run mru (port.tnc.fill bs) port.rxBuf
      ms payloads d (PATTY_KISS_TNC_BUFSZ + 1) (Tnc.fill_fits hfits hlen) (by rw [Tnc.fill_unread]; omega)
      (fun hnil => absurd (Tnc.fill_unread.symm.trans hnil) hbs) (by rw [Tnc.fill_unread]; exact hrun)
    obtain ⟨hfirst, hdone⟩ := ifaceLoop_takes hrunning hup' hloop hloop'
    refine ⟨hfirst.trans (List.prefix_append ps more), fun hr => ?_⟩
    obtain ⟨rfl, rfl⟩ := hdone hr
    exact ⟨hfits', more, hmore, rfl⟩

/-- An interface that is not up hands on nothing. -/
theorem M.Turn.frames_nil {bs : Bytes} (h : M.Turn i port w r port' bs frames w') (hup : ∀ mru, ¬w.Up i mru) :
    frames = [] := by
  cases h with
  | idle | failed | closed => rfl
  | @read iface _ _ _ _ _ hiface hstatus => exact absurd ⟨iface, hiface, rfl, hstatus⟩ (hup iface.mru)

/-! ## Runs -/

/-- What the interface hands on follows what it reads, with a decoder for frames of `mru` octets. -/
structure Station.Tracks (i mru : Nat) (st : Station) : Prop where
  only : st.world.running → ∀ mru', st.world.Up i mru' → mru' = mru
  heard : ∀ ms payloads d, Dec.run mru false false .fresh ((st.reads i).flatMap marks ++ ms) = some (payloads, d) →
    st.heard i <+: payloads
  rest : st.world.running → st.world.Up i mru → ∀ ms payloads d,
    Dec.run mru false false .fresh ((st.reads i).flatMap marks ++ ms) = some (payloads, d) →
    (st.ports i).tnc.Fits mru ∧ ∃ more,
      Dec.run mru false false ((st.ports i).tnc.dec (st.ports i).rxBuf) ms = some (more, d) ∧
      payloads = st.heard i ++ more

namespace Station.Tracks

variable {st st' : Station}

/-- As long as nothing of the interface changes, and it is not taken up. -/
theorem congr (h : st.Tracks i mru) (hports : st'.ports i = st.ports i) (hreads : st'.reads i = st.reads i)
    (hheard : st'.heard i = st.heard i)
    (hup : st'.world.running → st.world.running ∧ ∀ mru, st'.world.Up i mru → st.world.Up i mru) :
    st'.Tracks i mru := by
  refine ⟨fun hr mru' hu => h.only (hup hr).1 mru' ((hup hr).2 mru' hu), ?_, fun hr hu => ?_⟩
  · rw [hreads, hheard]
    exact h.heard
  · rw [hreads, hheard, hports]
    exact h.rest (hup hr).1 ((hup hr).2 mru hu)

end Station.Tracks

theorem tracks_start {c : Config} {ports : Nat → Port} {junk rxBuf : Mem}
    (hport : ports i = ⟨.new junk, rxBuf⟩) (hmru : ∀ iface ∈ c.ifaces[i]?, iface.mru = mru) :
    (Station.start c ports).Tracks i mru := by
  refine ⟨?_, fun _ _ _ _ => List.nil_prefix, fun _ _ ms payloads d h => ?_⟩
  · rintro - _ ⟨iface, hi, rfl, -⟩
    rw [Station.start, World.start, List.getElem?_map] at hi
    obtain ⟨iface₀, hi₀, rfl⟩ := Option.map_eq_some_iff.mp hi
    exact hmru iface₀ hi₀
  · change (ports i).tnc.Fits mru ∧ ∃ more, Dec.run mru false false ((ports i).tnc.dec (ports i).rxBuf) ms =
      some (more, d) ∧ payloads = [] ++ more
    rw [hport]
    exact ⟨new_fits junk mru, payloads, h, rfl⟩

theorem flatMap_read {reads : List Bytes} {bs : Bytes} :
    (if bs.isEmpty then reads else reads ++ [bs]).flatMap marks = reads.flatMap marks ++ marks bs := by
  cases bs with
  | nil => rw [List.isEmpty_nil, if_pos rfl, marks_nil, List.append_nil]
  | cons c bs => rw [List.isEmpty_cons, if_neg Bool.false_ne_true, List.flatMap_append, List.flatMap_singleton]

theorem tracks_step {st st' : Station} {x : Signal × Sys} (h : st.Tracks i mru) (hstep : st.Step x st') :
    st'.Tracks i mru := by
  have hup := hearing_up (hears_step hstep)
  obtain ⟨signal, sys⟩ := x
  cases signal with
  | event event =>
    have hworld : ∃ world, st' = { st with world } := by
      cases event with
      | frame => cases hstep
      | sock | client | write | accept =>
        obtain ⟨world, -, rfl⟩ := Option.map_eq_some_iff.mp hstep
        exact ⟨world, rfl⟩
    obtain ⟨world, rfl⟩ := hworld
    exact h.congr rfl rfl rfl fun hr => ⟨(hup hr).1, (hup hr).2 i⟩
  | read j inp =>
    rw [Station.Step, Station.exec, Station.read] at hstep
    dsimp only at hstep
    split_ifs at hstep with hrunning
    split at hstep
    · cases hstep
    · next r port bs frames w hturn =>
      cases hstep
      obtain ⟨⟨r', port', bs', frames'⟩, w₁, hiface, hresult⟩ := bind_eq_ok.mp hturn
      obtain ⟨y, w₂, hend, hpure⟩ := bind_eq_ok.mp hresult
      cases hpure
      by_cases hj : i = j
      · subst hj
        have honly : ∀ mru', World.Up { st.world with sys } i mru' → mru' = mru := h.only hrunning
        have htakes {more : List Bytes} {d : Dec} {ms : List (UInt8 × Bool)} :=
          @handleIface_takes i mru _ _ _ _ { st.world with sys } _ _ _ ms more d hrunning honly hiface
        have hreads (ms : List (UInt8 × Bool)) : ((if bs.isEmpty then st.reads
            else Function.update st.reads i (st.reads i ++ [bs])) i).flatMap marks ++ ms =
            (st.reads i).flatMap marks ++ (marks bs ++ ms) := by
          rw [← List.append_assoc, ← flatMap_read]
          split
          · rfl
          · rw [Function.update_self]
        refine ⟨fun hr mru' hu => h.only hrunning mru' ((hup hr).2 i mru' hu), fun ms payloads d hrun => ?_,
          fun hr hu ms payloads d hrun => ?_⟩
        · dsimp only at hrun ⊢
          rw [Function.update_self]
          rw [hreads] at hrun
          by_cases hu : st.world.Up i mru
          · obtain ⟨hfits, more, hmore, rfl⟩ := h.rest hrunning hu _ payloads d hrun
            exact (List.prefix_append_right_inj _).mpr (htakes hfits hmore).1
          · have hframes : frames = [] :=
              (M.handleIface_turn hiface).frames_nil fun mru' hu' => hu (honly mru' hu' ▸ hu')
            rw [hframes, List.append_nil]
            exact h.heard _ payloads d hrun
        · dsimp only at hrun ⊢
          rw [Function.update_self, Function.update_self]
          rw [hreads] at hrun
          obtain ⟨hfits, more, hmore, rfl⟩ := h.rest hrunning ((hup hr).2 i mru hu) _ payloads d hrun
          have hr' : 0 ≤ r' := Int.not_lt.mp fun hneg => down_of_failed hneg hend hr hu
          obtain ⟨hfits', more', hmore', rfl⟩ := (htakes hfits hmore).2 hr'
          exact ⟨hfits', more', hmore', (List.append_assoc ..).symm⟩
      · have hreads : (if bs.isEmpty then st.reads else Function.update st.reads j (st.reads j ++ [bs])) i =
            st.reads i := by
          split
          · rfl
          · exact Function.update_of_ne hj ..
        exact h.congr (Function.update_of_ne hj ..) hreads (Function.update_of_ne hj ..)
          fun hr => ⟨(hup hr).1, (hup hr).2 i⟩

theorem Station.run_execAll {st st' : Station} {xs : List Signal} (h : st.execAll xs = some st') :
    Run Station.Step (fun _ _ => True) st st' := by
  induction xs generalizing st with
  | nil =>
    cases h
    exact .refl
  | cons x xs ih =>
    obtain ⟨t, ht, h'⟩ := Option.bind_eq_some_iff.mp h
    have hstep : st.Step (x, .allOk) t := ht
    exact (Run.single trivial hstep).trans (ih h')

/-- A server with an interface that is watched. -/
def oneStation : Station :=
  .start { oneInterface with fdsWatch := fun _ => true } fun _ => ⟨.new fun _ => 0, fun _ => 0⟩

/-- A SABM that arrives in two reads. -/
def sabmReads : List Signal :=
  [.read 0 (.ok ((kissFrame sabmFrame).take 7)), .read 0 (.ok ((kissFrame sabmFrame).drop 7))]

end Patty
