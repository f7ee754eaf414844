import DvrBridge.Config
import DvrBridge.NetDvr3Start
import DvrBridge.NetDvr3Steps
import DvrBridge.Supervisor

/-! A whole call of `frames`, from the connection to its end, and which configurations keep the
contract of a driver. -/
namespace DvrBridge.NetDvr3
open Machine

/-- How a call of `frames` ends. -/
inductive Ended where
  | driverError
  | osError
  /-- any other exception -/
  | other
  deriving DecidableEq

/-- What `async for frame in gen` hands to the supervisor: `except (DriverError, OSError)`. -/
def Ended.runInput : Ended → Option RunInput
  | .driverError | .osError => some .failed
  | .other => none

/-- The argument of the first `writer.write`; `none` is a `ValueError` or `AttributeError`. -/
def startPacket (c : StreamConfig) : Option Bytes :=
  match c.username, c.password with
  | .str user, .str password => buildStartStream user password c.channel c.substream
  | _, _ => none

inductive Session where
  /-- in `asyncio.open_connection` -/
  | connecting
  /-- in `writer.drain()` -/
  | draining
  | parsing (p : Parser)
  | ended (why : Ended)

inductive SessionInput where
  | connected
  /-- `TimeoutError` or `OSError` of `open_connection` -/
  | refused
  /-- any other exception of `open_connection` -/
  | unusable
  | drained
  /-- an `OSError` of the awaited operation -/
  | lost
  | parser (i : ParserInput)

def frameOf : ParserOutput → Option VideoFrame
  | .frame f => some f
  | .raised => none

namespace Session

/-- `unusable host port`: `open_connection` may raise something that is no `OSError`. -/
def step (unusable : Toml → Int → Bool) (c : StreamConfig) :
    Session → SessionInput → Option (Session × List VideoFrame)
  | .connecting, .connected =>
    match startPacket c with
    | some _ => some (.draining, [])
    | none => some (.ended .other, [])
  | .connecting, .refused => some (.ended .driverError, [])
  | .connecting, .unusable => if unusable c.host c.port then some (.ended .other, []) else none
  | .draining, .drained => some (.parsing {}, [])
  | .draining, .lost => some (.ended .osError, [])
  | .parsing p, .parser i =>
    (p.step i).map fun r =>
      (if r.1.pc = .raised then .ended .driverError else .parsing r.1, r.2.filterMap frameOf)
  | .parsing p, .lost =>
    match p.move with
    | some (.read _) | some (.readExactly _) => some (.ended .osError, [])
    | _ => none
  | _, _ => none

variable (unusable : Toml → Int → Bool) (c : StreamConfig)

/-- Whatever the device does, the supervisor gets to handle the end of the call. -/
def KeepsContract : Prop :=
  ∀ is s out, run (step unusable c) .connecting is = some (s, out) →
    ∀ why, s = .ended why → why.runInput.isSome = true

variable {unusable c}

theorem step_safe {s s' : Session} {i : SessionInput} {o : List VideoFrame}
    (hp : (startPacket c).isSome = true) (hu : unusable c.host c.port = false)
    (hs : s.step unusable c i = some (s', o)) (why : Ended) (he : s' = .ended why) :
    why.runInput.isSome = true := by
  subst he
  cases s with
  | connecting =>
    cases i with
    | connected =>
      obtain ⟨pkt, hpkt⟩ := Option.isSome_iff_exists.mp hp
      simp [step, hpkt] at hs
    | refused =>
      cases hs
      rfl
    | unusable => simp [step, hu] at hs
    | drained => cases hs
    | lost => cases hs
    | parser i => cases hs
  | draining =>
    cases i with
    | drained => cases hs
    | lost =>
      cases hs
      rfl
    | connected => cases hs
    | refused => cases hs
    | unusable => cases hs
    | parser i => cases hs
  | parsing p =>
    cases i with
    | parser i =>
      obtain ⟨r, -, hr⟩ := Option.map_eq_some_iff.mp hs
      rw [Prod.mk.injEq] at hr
      obtain ⟨hr, -⟩ := hr
      split at hr
      · cases hr
        rfl
      · cases hr
    | lost =>
      simp only [step] at hs
      split at hs
      · cases hs
        rfl
      · cases hs
        rfl
      · cases hs
    | connected => cases hs
    | refused => cases hs
    | unusable => cases hs
    | drained => cases hs
  | ended _ => cases i <;> cases hs

/-- The contract rests on the start packet and on the address. -/
theorem keepsContract_iff :
    KeepsContract unusable c ↔
      (startPacket c).isSome = true ∧ unusable c.host c.port = false := by
  constructor
  · intro h
    constructor
    · by_contra hp
      rw [Option.not_isSome_iff_eq_none] at hp
      have hr : run (step unusable c) .connecting [.connected] = some (.ended .other, []) := by
        simp [run, step, hp]
      have := h _ _ _ hr .other rfl
      cases this
    · by_contra hu
      rw [Bool.not_eq_false] at hu
      have hr : run (step unusable c) .connecting [.unusable] = some (.ended .other, []) := by
        simp [run, step, hu]
      have := h _ _ _ hr .other rfl
      cases this
  · rintro ⟨hp, hu⟩ is s out hr
    exact run_invariant' (fun s _ => ∀ why, s = .ended why → why.runInput.isSome = true) (by simp)
      (fun s h i s' o _ hs => step_safe hp hu hs) hr

end Session

theorem startPacket_isSome_iff (c : StreamConfig) :
    (startPacket c).isSome = true ↔
      c.username.isStr = true ∧ c.password.isStr = true ∧ 1 ≤ c.channel ∧ c.channel ≤ 256 := by
  have hbuild : ∀ u p : Str, (buildStartStream u p c.channel c.substream).isSome = true ↔
      1 ≤ c.channel ∧ c.channel ≤ 256 := by
    intro u p
    unfold buildStartStream
    split
    · simp [*]
    · simp [*]
  unfold startPacket
  split
  · rename_i u p hu hp
    rw [hbuild, hu, hp]
    simp [Toml.isStr]
  · rename_i hne
    constructor
    · intro h
      cases h
    · rintro ⟨hu, hp, -⟩
      cases hcu : c.username <;> cases hcp : c.password <;>
        simp_all [Toml.isStr]

/-- What the table of an accepted device and one of its channels have to hold. -/
structure DeviceFits (unusable : Toml → Int → Bool) (dev : List (Str × Toml)) (ch : Toml) :
    Prop where
  channel : ∀ n, ch.toInt = some n → 1 ≤ n ∧ n ≤ 256
  username : ((Toml.lookup dev "username").getD (.str [])).isStr = true
  password : ((Toml.lookup dev "password").getD (.str [])).isStr = true
  address : ∀ host port, Toml.lookup dev "host" = some host →
    ((Toml.lookup dev "port").getD (.int 8888)).toInt = some port → unusable host port = false

theorem keepsContract_iff_fits {unusable : Toml → Int → Bool} {py : Builtins}
    {dev : List (Str × Toml)} {ch : Toml} {c : StreamConfig}
    (h : streamConfig py dev ch = some c) :
    Session.KeepsContract unusable c ↔ DeviceFits unusable dev ch := by
  obtain ⟨hhost, hch, hport, huser, hpass⟩ := streamConfig_eq_some h
  rw [Session.keepsContract_iff, startPacket_isSome_iff, huser, hpass]
  constructor
  · rintro ⟨⟨hu, hp, h₁, h₂⟩, ha⟩
    refine ⟨?_, hu, hp, ?_⟩
    · intro n hn
      rw [hch, Option.some.injEq] at hn
      exact hn ▸ ⟨h₁, h₂⟩
    · intro host port hh hpo
      rw [hhost, Option.some.injEq] at hh
      rw [hport, Option.some.injEq] at hpo
      exact hh ▸ hpo ▸ ha
  · rintro ⟨hc, hu, hp, ha⟩
    obtain ⟨h₁, h₂⟩ := hc _ hch
    exact ⟨⟨hu, hp, h₁, h₂⟩, ha _ _ hhost hport⟩

/-- All streams of an accepted configuration keep the contract of a driver exactly if the channels
are in the protocol's range, the credentials are strings and the addresses can be dialled. -/
theorem hub_keepsContract_iff (py : Builtins) (unusable : Toml → Int → Bool)
    (raw : List (Str × Toml)) (cfg : Config) (_hcfg : loadConfig raw = some cfg)
    (hub : List StreamConfig) (hhub : buildHub py cfg = some hub) :
    (∀ c ∈ hub, Session.KeepsContract unusable c) ↔
      ∀ dev chs ch, .table dev ∈ cfg.devices → channels dev = some chs → ch ∈ chs →
        DeviceFits unusable dev ch := by
  obtain ⟨h₁, h₂⟩ := mem_buildHub hhub
  constructor
  · intro h dev chs ch hdev hchs hch
    obtain ⟨c, hc, hsc⟩ := h₁ dev chs ch hdev hchs hch
    exact (keepsContract_iff_fits hsc).mp (h c hc)
  · intro h c hc
    obtain ⟨dev, chs, ch, hdev, hchs, hch, hsc⟩ := h₂ c hc
    exact (keepsContract_iff_fits hsc).mpr (h dev chs ch hdev hchs hch)

/-- `str` and `float` on the values of the examples. -/
def plainBuiltins : Builtins :=
  { format := fun v => match v with
      | .str s => s
      | .int n => PyText.decimalInt n
      | _ => []
    float := fun v => match v with
      | .float x => some x
      | .int n => some (.finite n)
      | _ => none }

/-- A file with one device. -/
def oneDevice (chs : List Toml) : List (Str × Toml) :=
  [("device".toList, .array [.table [("name".toList, .str "dvr".toList),
    ("driver".toList, .str "netdvr3".toList), ("host".toList, .str "192.168.1.108".toList),
    ("username".toList, .str "admin".toList), ("channels".toList, .array chs)]])]

/-- The device's channel 300 is accepted, and the driver dies of a `ValueError`. -/
theorem channel_out_of_range : ∃ cfg hub c,
    loadConfig (oneDevice [.int 300]) = some cfg ∧ buildHub plainBuiltins cfg = some hub ∧
      c ∈ hub ∧ ¬ Session.KeepsContract (fun _ _ => false) c := by
  have hstep : (((loadConfig (oneDevice [.int 300])).bind (buildHub plainBuiltins)).map fun hub =>
      hub.map fun c => (startPacket c).isSome) = some [false] := by decide +kernel
  obtain ⟨hub, hhub, hmap⟩ := Option.map_eq_some_iff.mp hstep
  obtain ⟨cfg, hcfg, hhub⟩ := Option.bind_eq_some_iff.mp hhub
  obtain ⟨c, hc, hp⟩ := List.mem_map.mp (hmap ▸ List.mem_singleton_self false)
  refine ⟨cfg, hub, c, hcfg, hhub, hc, fun h => ?_⟩
  rw [Session.keepsContract_iff, hp] at h
  exact Bool.false_ne_true h.1

theorem one_device_accepted :
    ((loadConfig (oneDevice [.int 1, .str "2".toList])).bind (buildHub plainBuiltins)).map
      (fun hub => hub.map fun c => (startPacket c).isSome) = some [true, true] := by
  decide +kernel

theorem hub_keepsContract_iff_one : ∃ cfg hub,
    loadConfig (oneDevice [.int 1, .str "2".toList]) = some cfg ∧
      buildHub plainBuiltins cfg = some hub ∧ hub.length = 2 ∧
      ((∀ c ∈ hub, Session.KeepsContract (fun _ _ => false) c) ↔
        ∀ dev chs ch, .table dev ∈ cfg.devices → channels dev = some chs → ch ∈ chs →
          DeviceFits (fun _ _ => false) dev ch) := by
  obtain ⟨hub, hhub, hmap⟩ := Option.map_eq_some_iff.mp one_device_accepted
  obtain ⟨cfg, hcfg, hhub⟩ := Option.bind_eq_some_iff.mp hhub
  have hlen := congrArg List.length hmap
  rw [List.length_map] at hlen
  exact ⟨cfg, hub, hcfg, hhub, hlen,
    hub_keepsContract_iff plainBuiltins (fun _ _ => false) _ cfg hcfg hub hhub⟩

end DvrBridge.NetDvr3
