import DvrBridge.PyText
import Mathlib.Data.Rat.Defs

/-! The configuration: what `load_config` and `build_hub` accept, and the streams they make. -/
namespace DvrBridge

inductive TomlFloat where
  | finite (q : ℚ)
  | inf
  | nan
  deriving DecidableEq

/-- A value of the parsed file. -/
inductive Toml where
  | str (s : Str)
  | int (n : Int)
  | float (x : TomlFloat)
  | bool (b : Bool)
  /-- a date or a time -/
  | datetime (text : Str)
  | array (xs : List Toml)
  | table (fields : List (Str × Toml))

namespace Toml

/-- `fields.get(key)` -/
def lookup (fields : List (Str × Toml)) (key : String) : Option Toml :=
  (fields.find? (·.1 = key.toList)).map (·.2)

/-- `bool(v)` -/
def truthy : Toml → Bool
  | str s => s ≠ []
  | int n => n ≠ 0
  | float x => x ≠ .finite 0
  | bool b => b
  | datetime _ => true
  | array xs => !xs.isEmpty
  | table fields => !fields.isEmpty

/-- `int(v)`; `none` is an exception. -/
def toInt : Toml → Option Int
  | str s => PyText.int s
  | int n => some n
  | float (.finite q) => some (q.num.tdiv q.den)
  | bool b => some (if b then 1 else 0)
  | _ => none

/-- The values that `for x in v` goes through; `none` is a `TypeError`. -/
def iter : Toml → Option (List Toml)
  | str s => some (s.map fun c => str [c])
  | array xs => some xs
  | table fields => some (fields.map fun f => str f.1)
  | _ => none

def isStr : Toml → Bool
  | str _ => true
  | _ => false

def isText (s : String) : Toml → Bool
  | str t => t = s.toList
  | _ => false

/-- `key in v`; `none` is a `TypeError`. -/
def contains (key : String) : Toml → Option Bool
  | str s => some (s.tails.any (key.toList.isPrefixOf ·))
  | array xs => some (xs.any (isText key))
  | table fields => some (lookup fields key).isSome
  | _ => none

end Toml

structure ServerConfig where
  listen : Toml
  port : Int
  username : Option Toml
  password : Option Toml

structure Config where
  server : ServerConfig
  devices : List Toml

/-- `load_config` on the parsed file; `none` is a `ConfigError` or another exception. -/
def loadConfig (raw : List (Str × Toml)) : Option Config :=
  match (Toml.lookup raw "server").getD (.table []) with
  | .table srv => do
    let port ← ((Toml.lookup srv "port").getD (.int 8554)).toInt
    let server : ServerConfig :=
      { listen := (Toml.lookup srv "listen").getD (.str "0.0.0.0".toList)
        port := port
        username := Toml.lookup srv "username"
        password := Toml.lookup srv "password" }
    guard (server.username.any Toml.truthy = server.password.any Toml.truthy)
    let device := (Toml.lookup raw "device").getD (.array [])
    guard device.truthy
    let devices ← device.iter
    guard (devices.all fun dev => ["name", "driver", "host"].all fun key =>
      dev.contains key = some true)
    return { server := server, devices := devices }
  | _ => none

/-- What a stream of the hub and its driver are made from. -/
structure StreamConfig where
  name : Str
  host : Toml
  username : Toml
  password : Toml
  channel : Int
  substream : Bool
  port : Int
  alwaysOn : Bool
  linger : TomlFloat

/-- The standard library's readings of a value. -/
structure Builtins where
  /-- `f"{v}"` -/
  format : Toml → Str
  /-- `float(v)`; `none` is an exception. -/
  float : Toml → Option TomlFloat

/-- The body of the loop over the channels of a device. -/
def streamConfig (py : Builtins) (dev : List (Str × Toml)) (ch : Toml) : Option StreamConfig := do
  let host ← Toml.lookup dev "host"
  let channel ← ch.toInt
  let port ← ((Toml.lookup dev "port").getD (.int 8888)).toInt
  let name ← Toml.lookup dev "name"
  let linger ← py.float ((Toml.lookup dev "linger").getD (.float (.finite 10)))
  return {
    name := py.format name ++ "/ch".toList ++ py.format ch
    host := host
    username := (Toml.lookup dev "username").getD (.str [])
    password := (Toml.lookup dev "password").getD (.str [])
    channel := channel
    substream := ((Toml.lookup dev "substream").getD (.bool false)).truthy
    port := port
    alwaysOn := ((Toml.lookup dev "always_on").getD (.bool false)).truthy
    linger := linger }

def channels (dev : List (Str × Toml)) : Option (List Toml) :=
  ((Toml.lookup dev "channels").getD (.array [.int 1])).iter

/-- The streams of one device; there is one driver to choose. -/
def deviceStreams (py : Builtins) : Toml → Option (List StreamConfig)
  | .table dev => do
    let driver ← Toml.lookup dev "driver"
    guard (driver.isText "netdvr3")
    let chs ← channels dev
    chs.mapM (streamConfig py dev)
  | _ => none

/-- `none` is any exception, among them the `ValueError` for a name used twice. -/
def buildHub (py : Builtins) (cfg : Config) : Option (List StreamConfig) := do
  let streams ← cfg.devices.mapM (deviceStreams py)
  guard (streams.flatten.map (·.name)).Nodup
  return streams.flatten

/-! Where the streams of an accepted configuration come from. -/

/-- When every element has a result, the results are those of the elements. -/
theorem mem_of_mapM {α β : Type*} {f : α → Option β} {xs : List α} {ys : List β}
    (h : xs.mapM f = some ys) :
    (∀ x ∈ xs, ∃ y ∈ ys, f x = some y) ∧ ∀ y ∈ ys, ∃ x ∈ xs, f x = some y := by
  induction xs generalizing ys with
  | nil =>
    cases h
    simp
  | cons x xs ih =>
    rw [List.mapM_cons] at h
    obtain ⟨y, hy, h⟩ := Option.bind_eq_some_iff.mp h
    obtain ⟨zs, hzs, h⟩ := Option.bind_eq_some_iff.mp h
    cases h
    obtain ⟨h₁, h₂⟩ := ih hzs
    constructor
    · intro a ha
      rcases List.mem_cons.mp ha with rfl | ha
      · exact ⟨y, List.mem_cons_self .., hy⟩
      · obtain ⟨z, hz, hf⟩ := h₁ a ha
        exact ⟨z, List.mem_cons_of_mem y hz, hf⟩
    · intro b hb
      rcases List.mem_cons.mp hb with rfl | hb
      · exact ⟨x, List.mem_cons_self .., hy⟩
      · obtain ⟨a, ha, hf⟩ := h₂ b hb
        exact ⟨a, List.mem_cons_of_mem x ha, hf⟩

theorem deviceStreams_eq_some {py : Builtins} {d : Toml} {cs : List StreamConfig}
    (h : deviceStreams py d = some cs) :
    ∃ dev chs, d = .table dev ∧ channels dev = some chs ∧
      chs.mapM (streamConfig py dev) = some cs := by
  cases d with
  | table dev =>
    obtain ⟨driver, -, h⟩ := Option.bind_eq_some_iff.mp h
    obtain ⟨-, -, h⟩ := Option.bind_eq_some_iff.mp h
    obtain ⟨chs, hchs, h⟩ := Option.bind_eq_some_iff.mp h
    exact ⟨dev, chs, rfl, hchs, h⟩
  | str s => cases h
  | int n => cases h
  | float x => cases h
  | bool b => cases h
  | datetime t => cases h
  | array xs => cases h

/-- The streams of the hub are those of the devices' channels, one for each. -/
theorem mem_buildHub {py : Builtins} {cfg : Config} {hub : List StreamConfig}
    (h : buildHub py cfg = some hub) :
    (∀ dev chs ch, .table dev ∈ cfg.devices → channels dev = some chs → ch ∈ chs →
      ∃ c ∈ hub, streamConfig py dev ch = some c) ∧
    ∀ c ∈ hub, ∃ dev chs ch, .table dev ∈ cfg.devices ∧ channels dev = some chs ∧ ch ∈ chs ∧
      streamConfig py dev ch = some c := by
  obtain ⟨streams, hs, h⟩ := Option.bind_eq_some_iff.mp h
  obtain ⟨-, -, h⟩ := Option.bind_eq_some_iff.mp h
  cases h
  obtain ⟨h₁, h₂⟩ := mem_of_mapM hs
  constructor
  · intro dev chs ch hdev hchs hch
    obtain ⟨cs, hcs, hd⟩ := h₁ _ hdev
    obtain ⟨dev', chs', hdev', hchs', hm⟩ := deviceStreams_eq_some hd
    cases hdev'
    rw [hchs, Option.some.injEq] at hchs'
    subst hchs'
    obtain ⟨c, hc, hsc⟩ := (mem_of_mapM hm).1 ch hch
    exact ⟨c, List.mem_flatten.mpr ⟨cs, hcs, hc⟩, hsc⟩
  · intro c hc
    obtain ⟨cs, hcs, hc⟩ := List.mem_flatten.mp hc
    obtain ⟨d, hd, hds⟩ := h₂ cs hcs
    obtain ⟨dev, chs, rfl, hchs, hm⟩ := deviceStreams_eq_some hds
    obtain ⟨ch, hch, hsc⟩ := (mem_of_mapM hm).2 c hc
    exact ⟨dev, chs, ch, hd, hchs, hch, hsc⟩

/-- What the driver gets of a device's table and one of its channels. -/
theorem streamConfig_eq_some {py : Builtins} {dev : List (Str × Toml)} {ch : Toml}
    {c : StreamConfig} (h : streamConfig py dev ch = some c) :
    Toml.lookup dev "host" = some c.host ∧ ch.toInt = some c.channel ∧
      ((Toml.lookup dev "port").getD (.int 8888)).toInt = some c.port ∧
      c.username = (Toml.lookup dev "username").getD (.str []) ∧
      c.password = (Toml.lookup dev "password").getD (.str []) := by
  obtain ⟨host, hhost, h⟩ := Option.bind_eq_some_iff.mp h
  obtain ⟨channel, hchannel, h⟩ := Option.bind_eq_some_iff.mp h
  obtain ⟨port, hport, h⟩ := Option.bind_eq_some_iff.mp h
  obtain ⟨name, -, h⟩ := Option.bind_eq_some_iff.mp h
  obtain ⟨linger, -, h⟩ := Option.bind_eq_some_iff.mp h
  cases h
  exact ⟨hhost, hchannel, hport, rfl, rfl⟩

end DvrBridge
