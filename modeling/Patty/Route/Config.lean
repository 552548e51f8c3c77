import Patty.Route
import Patty.Wire.Address

/-! # Configured routes (`daemon.c`)

`patty_daemon_route_add` makes a route of the arguments of a line of the configuration. It stores the
interface and the repeaters, but not how many repeaters there are: each route in the table is as it was
configured but for that number (`holds_run`). -/

namespace Patty

open Prog

/-! ## Configuration -/

/-- The arguments of `patty_daemon_route_add`. -/
structure RouteConf where
  ifname : Mem
  dest : Option Bytes
  repeaters : List Bytes

/-- The loop of `patty_daemon_route_add` over the repeaters, from the one with the number `i` on. A ninth
one is stored past the end of the array. -/
def addRepeaters (repeaters : Fin PATTY_AX25_MAX_HOPS → Addr) :
    List Bytes → Nat → Except Fault (Option (Fin PATTY_AX25_MAX_HOPS → Addr))
  | [], _ => .ok (some repeaters)
  | text :: texts, i =>
    if h : i < PATTY_AX25_MAX_HOPS then
      match pton text (repeaters ⟨i, h⟩) with
      | none => .ok none
      | some addr => addRepeaters (fun j => if j.val = i then addr else repeaters j) texts (i + 1)
    else .error .overrun

/-- The destination of the route: zero if there is none. -/
def RouteConf.destAddr (c : RouteConf) : Option Addr :=
  match c.dest with
  | none => some .zero
  | some text => pton text .zero

/-- The route that `patty_daemon_route_add` fills in. It leaves the number of repeaters zero. -/
def RouteConf.route (c : RouteConf) (i : Nat) : Except Fault (Option Route) :=
  match c.destAddr with
  | none => .ok none
  | some dest =>
    match addRepeaters (fun _ => .zero) c.repeaters 0 with
    | .error e => .error e
    | .ok none => .ok none
    | .ok (some repeaters) => .ok (some ⟨i, dest, repeaters, 0⟩)

namespace M

/-- `patty_ax25_server_route_add` -/
def serverRouteAdd (route : Route) : M Bool := do
  match routeAdd (← get).routes route with
  | .error e =>
    setErrno e
    pure false
  | .ok routes =>
    if ← dictRoom (← get).routes route.key then
      modify fun w => { w with routes }
      pure true
    else pure false

/-- `patty_daemon_route_add`: whether it succeeds. -/
def daemonRouteAdd (c : RouteConf) : M Bool := do
  match ifGet (← get).ifaces c.ifname with
  | none => pure false
  | some i =>
    if ← alloc then
      match ← lift (c.route i) with
      | none => pure false
      | some route => serverRouteAdd route
    else pure false

end M

/-- What is configured for a destination: the interface, and the repeaters to pass in order. -/
structure Via where
  iface : Nat
  path : List Addr

/-- The repeaters as they are configured. -/
def RouteConf.path (c : RouteConf) : Option (List Addr) := c.repeaters.mapM fun text => pton text .zero

/-- What the arguments say: a destination, and how to reach it. -/
def RouteConf.entry (c : RouteConf) (ifaces : List Iface) : Option (Addr × Via) :=
  match ifGet ifaces c.ifname, c.destAddr, c.path with
  | some i, some dest, some path => some (dest, ⟨i, path⟩)
  | _, _, _ => none

/-- The route table, and what was configured by the calls that succeeded. -/
structure Configured where
  routes : Dict UInt32 Route
  vias : Addr → Option Via

namespace Configured

def none : Configured := ⟨∅, fun _ => .none⟩

/-- What is configured for a peer: for the station itself, or else the default. -/
def viaTo (c : Configured) (peer : Addr) : Option Via := (c.vias peer).or (c.vias .zero)

end Configured

/-- A call of `patty_daemon_route_add`. -/
def ConfStep (c : Configured) (conf : RouteConf) (c' : Configured) : Prop :=
  ∃ w w' ok, w.routes = c.routes ∧ M.daemonRouteAdd conf w = .ok (ok, w') ∧ c'.routes = w'.routes ∧
    c'.vias = match ok, conf.entry w.ifaces with
      | true, some (dest, via) => putNamed Addr.Same c.vias dest (some via)
      | _, _ => c.vias

/-! ## What the table holds -/

/-- The route is one to take as configured, but for the number of its repeaters. -/
structure Via.Stored (via : Via) (route : Route) : Prop where
  iface : route.iface = via.iface
  path : hopList route.repeaters via.path.length = via.path
  hops : route.hops = 0

/-- Each route in the table is one that was configured. -/
def Configured.Holds (c : Configured) : Prop :=
  ∀ key route, c.routes.lookup key = some route →
    key = route.key ∧ ∃ via, c.vias route.dest = some via ∧ via.Stored route

variable {c c' : Configured} {conf : RouteConf} {route route' : Route} {texts : List Bytes} {i n : Nat}
  {w w' : World} {client : Nat} {m : Mem} {p : Ptr} {s s' : Sock} {via : Via} {path : List Addr}

/-- The loop stores the repeaters behind those that are there. -/
theorem addRepeaters_eq {repeaters repeaters' : Fin PATTY_AX25_MAX_HOPS → Addr}
    (hzero : ∀ j : Fin PATTY_AX25_MAX_HOPS, i ≤ j.val → repeaters j = .zero)
    (h : addRepeaters repeaters texts i = .ok (some repeaters')) :
    ∃ path, texts.mapM (fun text => pton text .zero) = some path ∧
      hopList repeaters' (i + path.length) = hopList repeaters i ++ path := by
  induction texts generalizing repeaters i with
  | nil =>
    rw [addRepeaters] at h
    cases h
    exact ⟨[], rfl, (List.append_nil _).symm⟩
  | cons text texts ih =>
    rw [addRepeaters] at h
    split at h
    case isFalse => cases h
    next hi =>
      rw [hzero ⟨i, hi⟩ le_rfl] at h
      cases haddr : pton text .zero with
      | none =>
        rw [haddr] at h
        cases h
      | some addr =>
        rw [haddr] at h
        have hzero' : ∀ j : Fin PATTY_AX25_MAX_HOPS, i + 1 ≤ j.val →
            (if j.val = i then addr else repeaters j) = .zero := by
          intro j hj
          rw [if_neg (by omega)]
          exact hzero j (by omega)
        obtain ⟨path, hpath, hlist⟩ := ih hzero' h
        refine ⟨addr :: path, ?_, ?_⟩
        · rw [List.mapM_cons, haddr, hpath]
          rfl
        · rw [hopList_push addr hi, List.append_assoc, Nat.add_assoc, Nat.add_comm 1] at hlist
          exact hlist

/-- A route that is filled in has what the arguments say. -/
theorem route_entry {ifaces : List Iface} (hi : ifGet ifaces conf.ifname = some i)
    (h : conf.route i = .ok (some route)) :
    ∃ via, conf.entry ifaces = some (route.dest, via) ∧ via.Stored route := by
  rw [RouteConf.route] at h
  split at h
  next => cases h
  next dest hdest =>
    split at h <;> cases h
    next repeaters hrepeaters =>
      obtain ⟨path, hpath, hlist⟩ := addRepeaters_eq (fun _ _ => rfl) hrepeaters
      refine ⟨⟨i, path⟩, ?_, rfl, ?_, rfl⟩
      · rw [RouteConf.entry, hi, hdest, RouteConf.path, hpath]
      · rw [Nat.zero_add] at hlist
        exact hlist

theorem routes_alloc : Leaves World.routes M.alloc := by
  have hanswer : Leaves World.routes (M.answer (·.alloc) (fun sys l => { sys with alloc := l }) true) := by
    intro w a w' h
    unfold M.answer at h
    split at h <;> cases h <;> rfl
  exact hanswer.bind fun _ => .ite .pure (Leaves.bind (.modify fun _ => rfl) fun _ => .pure)

/-- What `patty_ax25_server_route_add` does to the table. -/
theorem serverRouteAdd_spec : wp (M.serverRouteAdd route)
    (fun ok w' => if ok then w.routes.lookup route.key = none ∧ w'.routes = w.routes.insert route.key route
      else w'.routes = w.routes)
    (fun _ => True) w := by
  rw [M.serverRouteAdd, wp_bind, wp_get]
  cases hadd : routeAdd w.routes route with
  | error e => exact rfl
  | ok routes =>
    have hnone : w.routes.lookup route.key = none := by
      rw [routeAdd, routeFind_eq] at hadd
      split at hadd
      · cases hadd
      next hsome =>
        rw [Option.isSome_or, Bool.not_eq_true, Bool.or_eq_false_iff] at hsome
        exact Option.isSome_eq_false_iff.mp hsome.1 |> Option.isNone_iff_eq_none.mp
    dsimp only
    rw [wp_bind, wp_get, wp_bind]
    have hroom : Leaves World.routes (M.dictRoom w.routes route.key) := .ite .pure routes_alloc
    refine hroom.wp (fun room w₁ h₁ => ?_) fun _ => trivial
    cases room with
    | true => exact ⟨hnone, routeAdd_eq_ok hadd⟩
    | false => exact h₁

/-- A call that succeeds adds the route of its arguments. -/
theorem daemonRouteAdd_spec : wp (M.daemonRouteAdd conf)
    (fun ok w' => if ok then ∃ route via, conf.entry w.ifaces = some (route.dest, via) ∧ via.Stored route ∧
        w.routes.lookup route.key = none ∧ w'.routes = w.routes.insert route.key route
      else w'.routes = w.routes)
    (fun _ => True) w := by
  rw [M.daemonRouteAdd, wp_bind, wp_get]
  cases hi : ifGet w.ifaces conf.ifname with
  | none => exact rfl
  | some i =>
    dsimp only
    rw [wp_bind]
    refine routes_alloc.wp (fun ok w₁ h₁ => ?_) fun _ => trivial
    cases ok with
    | false => exact h₁
    | true =>
      rw [wp_ite]
      refine ⟨fun _ => ?_, fun hfalse => absurd rfl hfalse⟩
      rw [wp_bind, wp_lift]
      refine ⟨fun r hr => ?_, fun _ _ => trivial⟩
      cases r with
      | none => exact h₁
      | some route =>
        obtain ⟨via, hentry, hstored⟩ := route_entry hi hr
        refine serverRouteAdd_spec.post fun ok w' h => ?_
        rw [h₁] at h
        cases ok with
        | false => exact h
        | true => exact ⟨route, via, hentry, hstored, h⟩

theorem ConfStep.holds (hstep : ConfStep c conf c') (h : c.Holds) : c'.Holds := by
  obtain ⟨w, w', ok, hw, hrun, hroutes, hvias⟩ := hstep
  have hspec := daemonRouteAdd_spec.ok hrun
  intro key route hlookup
  rw [hroutes] at hlookup
  cases ok with
  | false =>
    rw [hspec, hw] at hlookup
    rw [hvias]
    exact h key route hlookup
  | true =>
    obtain ⟨added, via, hentry, hstored, hfree, hinsert⟩ := hspec
    rw [hentry] at hvias
    dsimp only at hvias
    rw [hinsert] at hlookup
    by_cases hkey : key = added.key
    · rw [hkey, AList.lookup_insert] at hlookup
      cases hlookup
      refine ⟨hkey, via, ?_, hstored⟩
      rw [hvias, putNamed, if_pos (.refl _)]
    · rw [AList.lookup_insert_ne hkey, hw] at hlookup
      obtain ⟨hrest, via', hvia', hstored'⟩ := h key route hlookup
      refine ⟨hrest, via', ?_, hstored'⟩
      rw [hvias, putNamed, if_neg, hvia']
      intro hsame
      exact hkey (hrest.trans hsame.hashAddr)

theorem holds_run (h : Run ConfStep (fun _ _ => True) .none c) : c.Holds :=
  h.invariant (fun _ _ _ hc _ hstep => hstep.holds hc) fun _ _ h => by
    rw [Configured.none, AList.lookup_empty] at h
    cases h

end Patty
