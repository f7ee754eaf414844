import DvrBridge.Config
import Mathlib.Data.List.Duplicate
import Mathlib.Data.List.Nodup
import Mathlib.Data.Option.Basic

/-! How `load_config` and `build_hub` fail, check by check and conversion by conversion, and what
`_serve` makes of it. -/
namespace DvrBridge.ConfigErrors

inductive Exn where
  | configError (text : Str)
  /-- the `KeyError` of `get_driver` -/
  | unknownDriver (name : Toml)
  /-- the `ValueError` of `StreamHub.add` -/
  | duplicateName (name : Str)
  /-- what a conversion, an iteration or a look-up raises on a value of a wrong type -/
  | builtin

def orBuiltin {α : Type} : Option α → Except Exn α
  | some a => .ok a
  | none => .error .builtin

/-! `load_config` -/

def notFound (path : Str) : Str := "config file not found: ".toList ++ path

def invalid (path why : Str) : Str := "invalid TOML in ".toList ++ path ++ ": ".toList ++ why

def credentials : Str := "[server] username and password must be set together".toList

def noDevices : Str := "no [[device]] sections configured".toList

def missingKey (key : String) : Str :=
  "[[device]] missing required key '".toList ++ key.toList ++ "'".toList

/-- `if not p: raise ConfigError(text)` -/
def check (p : Prop) [Decidable p] (text : Str) : Except Exn Unit :=
  if p then .ok () else .error (.configError text)

/-- The keys that a device has to have. -/
def required : List String := ["name", "driver", "host"]

/-- The loop over the required keys. -/
def checkKeys (dev : Toml) : List String → Except Exn Unit
  | [] => .ok ()
  | key :: keys =>
    match dev.contains key with
    | some true => checkKeys dev keys
    | some false => .error (.configError (missingKey key))
    | none => .error .builtin

def checkDevices : List Toml → Except Exn Unit
  | [] => .ok ()
  | dev :: devs => checkKeys dev required >>= fun _ => checkDevices devs

/-- `load_config` on the parsed file. -/
def configOf (raw : List (Str × Toml)) : Except Exn Config :=
  match (Toml.lookup raw "server").getD (.table []) with
  | .table srv => do
    let port ← orBuiltin ((Toml.lookup srv "port").getD (.int 8554)).toInt
    let server : ServerConfig :=
      { listen := (Toml.lookup srv "listen").getD (.str "0.0.0.0".toList)
        port := port
        username := Toml.lookup srv "username"
        password := Toml.lookup srv "password" }
    check (server.username.any Toml.truthy = server.password.any Toml.truthy) credentials
    let device := (Toml.lookup raw "device").getD (.array [])
    check device.truthy noDevices
    let devices ← orBuiltin device.iter
    checkDevices devices
    return { server := server, devices := devices }
  | _ => .error .builtin

/-- What the path leads to. -/
inductive ConfigFile where
  | missing
  /-- with the text of the `TOMLDecodeError` -/
  | malformed (why : Str)
  | document (raw : List (Str × Toml))

def loadConfig (path : Str) : ConfigFile → Except Exn Config
  | .missing => .error (.configError (notFound path))
  | .malformed why => .error (.configError (invalid path why))
  | .document raw => configOf raw

/-! `build_hub` -/

/-- A dictionary's key cannot be an array or a table. -/
def hashable : Toml → Bool
  | .array _ | .table _ => false
  | _ => true

def getDriver (name : Toml) : Except Exn Unit :=
  if hashable name then
    if name.isText "netdvr3" then .ok () else .error (.unknownDriver name)
  else .error .builtin

/-- `hub.add` -/
def add (hub : List StreamConfig) (s : StreamConfig) : Except Exn (List StreamConfig) :=
  if hub.any (·.name = s.name) then .error (.duplicateName s.name) else .ok (hub ++ [s])

variable (py : Builtins)

/-- The loop over the channels of a device. -/
def addChannels (dev : List (Str × Toml)) (hub : List StreamConfig) :
    List Toml → Except Exn (List StreamConfig)
  | [] => .ok hub
  | ch :: chs => do
    let s ← orBuiltin (streamConfig py dev ch)
    let hub ← add hub s
    addChannels dev hub chs

def addDevice (hub : List StreamConfig) : Toml → Except Exn (List StreamConfig)
  | .table dev => do
    let driver ← orBuiltin (Toml.lookup dev "driver")
    getDriver driver
    let chs ← orBuiltin (channels dev)
    addChannels py dev hub chs
  | _ => .error .builtin

/-- The loop over the devices. -/
def addDevices (hub : List StreamConfig) : List Toml → Except Exn (List StreamConfig)
  | [] => .ok hub
  | dev :: devs => addDevice py hub dev >>= fun hub => addDevices hub devs

def buildHub (cfg : Config) : Except Exn (List StreamConfig) := addDevices py [] cfg.devices

/-! `_serve`, up to the start of the server. -/

inductive Started where
  | serving (cfg : Config) (hub : List StreamConfig)
  | exited (status : Int) (logged : Str)
  | raised (e : Exn)

def serve (path : Str) (file : ConfigFile) : Started :=
  match loadConfig path file >>= fun cfg => (buildHub py cfg).map (cfg, ·) with
  | .ok (cfg, hub) => .serving cfg hub
  | .error (.configError text) => .exited 2 text
  | .error e => .raised e

/-! What the checks and the conversions look for. -/

/-- A check of `load_config` that fails, and its text. -/
inductive Complaint (raw : List (Str × Toml)) : Str → Prop where
  | credentials {srv : List (Str × Toml)}
      (server : (Toml.lookup raw "server").getD (.table []) = .table srv)
      (halved : (Toml.lookup srv "username").any Toml.truthy ≠
        (Toml.lookup srv "password").any Toml.truthy) : Complaint raw credentials
  | noDevices (device : ((Toml.lookup raw "device").getD (.array [])).truthy = false) :
      Complaint raw noDevices
  | missingKey {devs : List Toml} {dev : Toml} {key : String}
      (device : ((Toml.lookup raw "device").getD (.array [])).iter = some devs) (mem : dev ∈ devs)
      (needed : key ∈ required) (absent : dev.contains key = some false) :
      Complaint raw (missingKey key)

/-- The values of a device's table convert. -/
structure DeviceTyped (dev : List (Str × Toml)) : Prop where
  driver : ∀ name, Toml.lookup dev "driver" = some name → hashable name = true
  channels : ∃ chs, channels dev = some chs ∧ ∀ ch ∈ chs, ch.toInt.isSome = true
  port : ((Toml.lookup dev "port").getD (.int 8888)).toInt.isSome = true
  linger : (py.float ((Toml.lookup dev "linger").getD (.float (.finite 10)))).isSome = true

/-- The values of the file are of the types that the code reads. -/
structure Typed (raw : List (Str × Toml)) : Prop where
  server : ∃ srv, (Toml.lookup raw "server").getD (.table []) = .table srv ∧
    ((Toml.lookup srv "port").getD (.int 8554)).toInt.isSome = true
  devices : ((Toml.lookup raw "device").getD (.array [])).truthy = true →
    ∃ devs, (Toml.lookup raw "device").getD (.array []) = .array devs ∧
      ∀ d ∈ devs, ∃ dev, d = .table dev ∧ DeviceTyped py dev

/-- The channels of a device, each with the device's table. -/
def channelsOf : Toml → List (List (Str × Toml) × Toml)
  | .table dev => ((channels dev).getD []).map (dev, ·)
  | _ => []

def listed (devices : List Toml) : List (List (Str × Toml) × Toml) := devices.flatMap channelsOf

/-- The streams of a list of channels, as far as their values convert. -/
def streamsOf (ps : List (List (Str × Toml) × Toml)) : List StreamConfig :=
  ps.filterMap fun p => streamConfig py p.1 p.2

/-- What a document that raises something else than a `ConfigError` is like. -/
inductive Escape (raw : List (Str × Toml)) : Exn → Prop where
  | unknownDriver {cfg : Config} {dev : List (Str × Toml)} {name : Toml}
      (accepted : DvrBridge.loadConfig raw = some cfg) (mem : .table dev ∈ cfg.devices)
      (driver : Toml.lookup dev "driver" = some name) (unknown : name.isText "netdvr3" = false) :
      Escape raw (.unknownDriver name)
  | duplicateName {cfg : Config} {name : Str} (accepted : DvrBridge.loadConfig raw = some cfg)
      (twice : List.Duplicate name ((streamsOf py (listed cfg.devices)).map (·.name))) :
      Escape raw (.duplicateName name)
  | builtin (mistyped : ¬ Typed py raw) : Escape raw .builtin

/-- One stream for each channel that the file lists, under a name of its own. -/
structure OneStreamEach (raw : List (Str × Toml)) (cfg : Config) (hub : List StreamConfig) :
    Prop where
  accepted : DvrBridge.loadConfig raw = some cfg
  streams : hub.map some = (listed cfg.devices).map fun p => streamConfig py p.1 p.2
  names : (hub.map (·.name)).Nodup

/-- How the start may end. -/
def Accounted (raw : List (Str × Toml)) : Started → Prop
  | .serving cfg hub => OneStreamEach py raw cfg hub
  | .exited status logged => status = 2 ∧ Complaint raw logged
  | .raised e => Escape py raw e

/-! The checks. -/

theorem checkKeys_eq_ok_iff (dev : Toml) (keys : List String) :
    checkKeys dev keys = .ok () ↔ ∀ key ∈ keys, dev.contains key = some true := by
  induction keys with
  | nil => simp [checkKeys]
  | cons key keys ih =>
    rw [checkKeys, List.forall_mem_cons]
    split
    · rename_i h
      rw [ih, h]
      simp
    · rename_i h
      simp [h]
    · rename_i h
      simp [h]

/-- A failing check names a key that the device lacks. -/
theorem checkKeys_error {dev : Toml} {keys : List String} {e : Exn}
    (h : checkKeys dev keys = .error e) :
    (∃ key ∈ keys, dev.contains key = some false ∧ e = .configError (missingKey key)) ∨
      e = .builtin ∧ ∃ key, dev.contains key = none := by
  induction keys with
  | nil => cases h
  | cons key keys ih =>
    rw [checkKeys] at h
    split at h
    · rcases ih h with ⟨k, hk, hc⟩ | hb
      · exact .inl ⟨k, List.mem_cons_of_mem key hk, hc⟩
      · exact .inr hb
    · rename_i hc
      cases h
      exact .inl ⟨key, List.mem_cons_self .., hc, rfl⟩
    · rename_i hc
      cases h
      exact .inr ⟨rfl, key, hc⟩

theorem checkDevices_eq_ok_iff (devs : List Toml) :
    checkDevices devs = .ok () ↔
      ∀ dev ∈ devs, ∀ key ∈ required, dev.contains key = some true := by
  induction devs with
  | nil => simp [checkDevices]
  | cons dev devs ih =>
    have hdev := checkKeys_eq_ok_iff dev required
    rw [checkDevices, List.forall_mem_cons, ← ih, ← hdev]
    cases checkKeys dev required with
    | ok u => simp [bind, Except.bind]
    | error e => simp [bind, Except.bind]

theorem checkDevices_error {devs : List Toml} {e : Exn} (h : checkDevices devs = .error e) :
    ∃ dev ∈ devs, (∃ key ∈ required, dev.contains key = some false ∧
      e = .configError (missingKey key)) ∨ e = .builtin ∧ ∃ key, dev.contains key = none := by
  induction devs with
  | nil => cases h
  | cons dev devs ih =>
    rw [checkDevices] at h
    cases hk : checkKeys dev required with
    | ok u =>
      rw [hk] at h
      obtain ⟨d, hd, hc⟩ := ih h
      exact ⟨d, List.mem_cons_of_mem dev hd, hc⟩
    | error e' =>
      rw [hk] at h
      cases h
      exact ⟨dev, List.mem_cons_self .., checkKeys_error hk⟩

section toOption
variable {ε α β : Type}

theorem toOption_bind (x : Except ε α) (f : α → Except ε β) :
    (x >>= f).toOption = x.toOption.bind fun a => (f a).toOption := by
  cases x <;> rfl

theorem toOption_pure (a : α) : (pure a : Except ε α).toOption = some a := rfl

theorem toOption_orBuiltin (o : Option α) : (orBuiltin o).toOption = o := by
  cases o <;> rfl

theorem toOption_check (p : Prop) [Decidable p] (text : Str) :
    (check p text).toOption = guard p := by
  unfold check guard
  split <;> rfl

theorem toOption_checkDevices (devs : List Toml) :
    (checkDevices devs).toOption = guard ((devs.all fun dev => required.all fun key =>
      dev.contains key = some true) = true) := by
  have hall : (devs.all fun dev => required.all fun key => dev.contains key = some true) = true ↔
      checkDevices devs = .ok () := by
    rw [checkDevices_eq_ok_iff]
    simp
  cases h : checkDevices devs with
  | ok u =>
    rw [guard, if_pos (hall.mpr h)]
    rfl
  | error e =>
    rw [guard, if_neg]
    · rfl
    · rw [hall, h]
      rintro ⟨⟩

end toOption

/-- The checks accept what `load_config` accepts. -/
theorem configOf_toOption (raw : List (Str × Toml)) :
    (configOf raw).toOption = DvrBridge.loadConfig raw := by
  unfold configOf DvrBridge.loadConfig
  cases (Toml.lookup raw "server").getD (.table []) with
  | table srv =>
    simp only [toOption_bind, toOption_orBuiltin, toOption_check, toOption_checkDevices,
      toOption_pure]
    rfl
  | _ => rfl

theorem bind_eq_error {ε α β : Type} {x : Except ε α} {f : α → Except ε β} {e : ε}
    (h : x >>= f = .error e) : x = .error e ∨ ∃ a, x = .ok a ∧ f a = .error e := by
  cases x with
  | error e' =>
    cases h
    exact .inl rfl
  | ok a => exact .inr ⟨a, rfl, h⟩

theorem bind_eq_ok {ε α β : Type} {x : Except ε α} {f : α → Except ε β} {b : β}
    (h : x >>= f = .ok b) : ∃ a, x = .ok a ∧ f a = .ok b := by
  cases x with
  | error e => cases h
  | ok a => exact ⟨a, rfl, h⟩

theorem orBuiltin_eq_error {α : Type} {o : Option α} {e : Exn} (h : orBuiltin o = .error e) :
    o = none ∧ e = .builtin := by
  cases o <;> cases h
  exact ⟨rfl, rfl⟩

theorem orBuiltin_eq_ok {α : Type} {o : Option α} {a : α} (h : orBuiltin o = .ok a) :
    o = some a := by
  cases o <;> cases h
  rfl

theorem check_eq_error {p : Prop} [Decidable p] {text : Str} {e : Exn}
    (h : check p text = .error e) : ¬ p ∧ e = .configError text := by
  unfold check at h
  split at h
  · cases h
  · rename_i hp
    cases h
    exact ⟨hp, rfl⟩

theorem check_eq_ok {p : Prop} [Decidable p] {text : Str} {u : Unit} (h : check p text = .ok u) :
    p := by
  unfold check at h
  split at h
  · rename_i hp
    exact hp
  · cases h

variable {py}

theorem contains_table (dev : List (Str × Toml)) (key : String) :
    (Toml.table dev).contains key = some (Toml.lookup dev key).isSome := rfl

/-- In a typed file every device can be searched for a key. -/
theorem Typed.device {raw : List (Str × Toml)} (ht : Typed py raw)
    (htrue : ((Toml.lookup raw "device").getD (.array [])).truthy = true) {devs : List Toml}
    (hiter : ((Toml.lookup raw "device").getD (.array [])).iter = some devs) {d : Toml}
    (hd : d ∈ devs) : ∃ dev, d = .table dev ∧ DeviceTyped py dev := by
  obtain ⟨devs', harray, hall⟩ := ht.devices htrue
  rw [harray] at hiter
  cases hiter
  exact hall d hd

/-- `load_config` raises a `ConfigError` for a failing check, and another exception only on a file
with a value of a wrong type. -/
theorem configOf_error {raw : List (Str × Toml)} {e : Exn} (h : configOf raw = .error e) :
    (∃ text, e = .configError text ∧ Complaint raw text) ∨ e = .builtin ∧ ¬ Typed py raw := by
  unfold configOf at h
  cases hsrv : (Toml.lookup raw "server").getD (.table []) with
  | table srv =>
    rw [hsrv] at h
    rcases bind_eq_error h with h | ⟨port, -, h⟩
    · -- the port does not convert
      obtain ⟨hport, he⟩ := orBuiltin_eq_error h
      refine .inr ⟨he, fun ht => ?_⟩
      obtain ⟨srv', hsrv', hconv⟩ := ht.server
      rw [hsrv, Toml.table.injEq] at hsrv'
      rw [← hsrv', hport] at hconv
      cases hconv
    rcases bind_eq_error h with h | ⟨-, -, h⟩
    · obtain ⟨hcred, he⟩ := check_eq_error h
      exact .inl ⟨_, he, .credentials hsrv hcred⟩
    rcases bind_eq_error h with h | ⟨u, hu, h⟩
    · obtain ⟨hdev, he⟩ := check_eq_error h
      exact .inl ⟨_, he, .noDevices (Bool.eq_false_iff.mpr hdev)⟩
    have htrue := check_eq_ok hu
    rcases bind_eq_error h with h | ⟨devs, hdevs, h⟩
    · -- the devices are no sequence
      obtain ⟨hiter, he⟩ := orBuiltin_eq_error h
      refine .inr ⟨he, fun ht => ?_⟩
      obtain ⟨devs, harray, -⟩ := ht.devices htrue
      rw [harray] at hiter
      cases hiter
    have hiter := orBuiltin_eq_ok hdevs
    rcases bind_eq_error h with h | ⟨-, -, h⟩
    · obtain ⟨dev, hdev, ⟨key, hkey, habsent, he⟩ | ⟨he, key, hnone⟩⟩ := checkDevices_error h
      · exact .inl ⟨_, he, .missingKey hiter hdev hkey habsent⟩
      · refine .inr ⟨he, fun ht => ?_⟩
        obtain ⟨fields, rfl, -⟩ := ht.device htrue hiter hdev
        rw [contains_table] at hnone
        cases hnone
    · cases h
  | _ =>
    rw [hsrv] at h
    cases h
    refine .inr ⟨rfl, fun ht => ?_⟩
    obtain ⟨srv, hsrv', -⟩ := ht.server
    rw [hsrv] at hsrv'
    cases hsrv'

theorem guard_eq_some {p : Prop} [Decidable p] {u : Unit} (h : (guard p : Option Unit) = some u) :
    p := by
  by_contra hp
  rw [guard, if_neg hp] at h
  cases h

/-- What an accepted file has passed. -/
theorem loadConfig_eq_some {raw : List (Str × Toml)} {cfg : Config}
    (h : DvrBridge.loadConfig raw = some cfg) :
    ∃ srv, (Toml.lookup raw "server").getD (.table []) = .table srv ∧
      (Toml.lookup srv "username").any Toml.truthy =
        (Toml.lookup srv "password").any Toml.truthy ∧
      ((Toml.lookup raw "device").getD (.array [])).truthy = true ∧
      ((Toml.lookup raw "device").getD (.array [])).iter = some cfg.devices ∧
      ∀ dev ∈ cfg.devices, ∀ key ∈ required, dev.contains key = some true := by
  unfold DvrBridge.loadConfig at h
  cases hsrv : (Toml.lookup raw "server").getD (.table []) with
  | table srv =>
    rw [hsrv] at h
    obtain ⟨port, -, h⟩ := Option.bind_eq_some_iff.mp h
    obtain ⟨u, hcred, h⟩ := Option.bind_eq_some_iff.mp h
    obtain ⟨u', htrue, h⟩ := Option.bind_eq_some_iff.mp h
    obtain ⟨devs, hiter, h⟩ := Option.bind_eq_some_iff.mp h
    obtain ⟨u'', hkeys, h⟩ := Option.bind_eq_some_iff.mp h
    cases h
    have hall := guard_eq_some hkeys
    refine ⟨srv, rfl, guard_eq_some hcred, guard_eq_some htrue, hiter, fun dev hdev key hkey => ?_⟩
    exact of_decide_eq_true (List.all_eq_true.mp (List.all_eq_true.mp hall dev hdev) key hkey)
  | _ =>
    rw [hsrv] at h
    cases h

/-- Where a check fails, `load_config` does not accept the file. -/
theorem Complaint.rejected {raw : List (Str × Toml)} {text : Str} (h : Complaint raw text)
    (cfg : Config) : DvrBridge.loadConfig raw ≠ some cfg := by
  intro hcfg
  obtain ⟨srv, hsrv, hcred, htrue, hiter, hkeys⟩ := loadConfig_eq_some hcfg
  cases h with
  | credentials server halved =>
    rw [hsrv, Toml.table.injEq] at server
    subst server
    exact halved hcred
  | noDevices device =>
    rw [htrue] at device
    cases device
  | missingKey device mem needed absent =>
    rw [hiter, Option.some.injEq] at device
    subst device
    rw [hkeys _ mem _ needed] at absent
    cases absent

/-! The hub. -/

/-- In a device that has passed the checks, what converts makes a stream. -/
theorem streamConfig_isSome {dev : List (Str × Toml)} (ht : DeviceTyped py dev)
    (hkeys : ∀ key ∈ required, (Toml.table dev).contains key = some true) {chs : List Toml}
    (hchs : channels dev = some chs) {ch : Toml} (hch : ch ∈ chs) :
    (streamConfig py dev ch).isSome = true := by
  have hlookup (key : String) (hkey : key ∈ required) : ∃ v, Toml.lookup dev key = some v := by
    have hc := hkeys key hkey
    rw [contains_table, Option.some.injEq] at hc
    exact Option.isSome_iff_exists.mp hc
  obtain ⟨name, hname⟩ := hlookup "name" (by simp [required])
  obtain ⟨host, hhost⟩ := hlookup "host" (by simp [required])
  obtain ⟨chs', hchs', hconv⟩ := ht.channels
  rw [hchs, Option.some.injEq] at hchs'
  subst hchs'
  obtain ⟨n, hn⟩ := Option.isSome_iff_exists.mp (hconv ch hch)
  obtain ⟨port, hport⟩ := Option.isSome_iff_exists.mp ht.port
  obtain ⟨linger, hlinger⟩ := Option.isSome_iff_exists.mp ht.linger
  simp [streamConfig, hname, hhost, hn, hport, hlinger]

/-- The hub has grown by one stream for each of the channels. -/
structure Grown (py : Builtins) (hub hub' : List StreamConfig)
    (ps : List (List (Str × Toml) × Toml)) : Prop where
  grown : ∃ new, hub' = hub ++ new ∧ new.map some = ps.map fun p => streamConfig py p.1 p.2
  names : (hub.map (·.name)).Nodup → (hub'.map (·.name)).Nodup

theorem Grown.refl (hub : List StreamConfig) : Grown py hub hub [] :=
  ⟨⟨[], (List.append_nil hub).symm, rfl⟩, id⟩

theorem Grown.trans {hub₁ hub₂ hub₃ : List StreamConfig} {ps qs : List (List (Str × Toml) × Toml)}
    (h : Grown py hub₁ hub₂ ps) (h' : Grown py hub₂ hub₃ qs) : Grown py hub₁ hub₃ (ps ++ qs) := by
  obtain ⟨new, rfl, hnew⟩ := h.grown
  obtain ⟨new', rfl, hnew'⟩ := h'.grown
  refine ⟨⟨new ++ new', List.append_assoc .., ?_⟩, fun hn => h'.names (h.names hn)⟩
  rw [List.map_append, List.map_append, hnew, hnew']

theorem taken_iff (hub : List StreamConfig) (name : Str) :
    hub.any (·.name = name) = true ↔ name ∈ hub.map (·.name) := by
  simp

theorem add_eq_ok {hub hub' : List StreamConfig} {s : StreamConfig} (h : add hub s = .ok hub') :
    hub' = hub ++ [s] ∧ s.name ∉ hub.map (·.name) := by
  unfold add at h
  split at h
  · cases h
  · rename_i hs
    cases h
    exact ⟨rfl, mt (taken_iff hub s.name).mpr hs⟩

theorem add_eq_error {hub : List StreamConfig} {s : StreamConfig} {e : Exn}
    (h : add hub s = .error e) : e = .duplicateName s.name ∧ s.name ∈ hub.map (·.name) := by
  unfold add at h
  split at h
  · rename_i hs
    cases h
    exact ⟨rfl, (taken_iff hub s.name).mp hs⟩
  · cases h

theorem add_grown {hub hub' : List StreamConfig} {dev : List (Str × Toml)} {ch : Toml}
    {s : StreamConfig} (hs : streamConfig py dev ch = some s) (h : add hub s = .ok hub') :
    Grown py hub hub' [(dev, ch)] := by
  obtain ⟨rfl, hnew⟩ := add_eq_ok h
  refine ⟨⟨[s], rfl, ?_⟩, fun hn => ?_⟩
  · rw [List.map_singleton, List.map_singleton, hs]
  · rw [List.map_append, List.map_singleton]
    exact hn.append (List.nodup_singleton _) (List.disjoint_singleton.mpr hnew)

theorem addChannels_grown {dev : List (Str × Toml)} {hub hub' : List StreamConfig}
    {chs : List Toml} (h : addChannels py dev hub chs = .ok hub') :
    Grown py hub hub' (chs.map (dev, ·)) := by
  induction chs generalizing hub with
  | nil =>
    cases h
    exact .refl _
  | cons ch chs ih =>
    obtain ⟨s, hs, h⟩ := bind_eq_ok h
    obtain ⟨hub₁, hadd, h⟩ := bind_eq_ok h
    exact (add_grown (orBuiltin_eq_ok hs) hadd).trans (ih h)

/-- A name that the hub has, or that an earlier channel took, is there twice. -/
theorem addChannels_error {dev : List (Str × Toml)} {hub : List StreamConfig} {chs : List Toml}
    {e : Exn} (h : addChannels py dev hub chs = .error e) :
    (∃ name, e = .duplicateName name ∧
      List.Duplicate name ((hub ++ streamsOf py (chs.map (dev, ·))).map (·.name))) ∨
    e = .builtin ∧ ∃ ch ∈ chs, streamConfig py dev ch = none := by
  induction chs generalizing hub with
  | nil => cases h
  | cons ch chs ih =>
    rcases bind_eq_error h with h | ⟨s, hs, h⟩
    · obtain ⟨hnone, he⟩ := orBuiltin_eq_error h
      exact .inr ⟨he, ch, List.mem_cons_self .., hnone⟩
    have hs := orBuiltin_eq_ok hs
    have hcons : streamsOf py ((ch :: chs).map (dev, ·)) = s :: streamsOf py (chs.map (dev, ·)) :=
      List.filterMap_cons_some hs
    rcases bind_eq_error h with h | ⟨hub₁, hadd, h⟩
    · obtain ⟨he, hmem⟩ := add_eq_error h
      refine .inl ⟨_, he, List.duplicate_iff_sublist.mpr ?_⟩
      rw [hcons, List.map_append, List.map_cons]
      exact (List.singleton_sublist.mpr hmem).append
        (List.singleton_sublist.mpr (List.mem_cons_self ..))
    · obtain ⟨rfl, -⟩ := add_eq_ok hadd
      rcases ih h with ⟨name, he, htwice⟩ | ⟨he, c, hc, hnone⟩
      · refine .inl ⟨name, he, ?_⟩
        rwa [hcons, List.append_cons]
      · exact .inr ⟨he, c, List.mem_cons_of_mem ch hc, hnone⟩

theorem getDriver_eq_error {name : Toml} {e : Exn} (h : getDriver name = .error e) :
    e = .unknownDriver name ∧ name.isText "netdvr3" = false ∨
      e = .builtin ∧ hashable name = false := by
  unfold getDriver at h
  split at h
  · split at h
    · cases h
    · rename_i hname
      cases h
      exact .inl ⟨rfl, Bool.eq_false_iff.mpr hname⟩
  · rename_i hname
    cases h
    exact .inr ⟨rfl, Bool.eq_false_iff.mpr hname⟩

theorem channelsOf_table {dev : List (Str × Toml)} {chs : List Toml}
    (h : channels dev = some chs) : channelsOf (.table dev) = chs.map (dev, ·) := by
  rw [channelsOf, h, Option.getD_some]

theorem addDevice_grown {hub hub' : List StreamConfig} {d : Toml}
    (h : addDevice py hub d = .ok hub') : Grown py hub hub' (channelsOf d) := by
  cases d with
  | table dev =>
    obtain ⟨name, -, h⟩ := bind_eq_ok h
    obtain ⟨u, -, h⟩ := bind_eq_ok h
    obtain ⟨chs, hchs, h⟩ := bind_eq_ok h
    rw [channelsOf_table (orBuiltin_eq_ok hchs)]
    exact addChannels_grown h
  | _ => cases h

/-- Why a device does not get into the hub. -/
theorem addDevice_error {hub : List StreamConfig} {d : Toml} {e : Exn}
    (h : addDevice py hub d = .error e) :
    (∃ dev name, d = .table dev ∧ Toml.lookup dev "driver" = some name ∧
      name.isText "netdvr3" = false ∧ e = .unknownDriver name) ∨
    (∃ name, e = .duplicateName name ∧
      List.Duplicate name ((hub ++ streamsOf py (channelsOf d)).map (·.name))) ∨
    e = .builtin ∧ ((∀ key ∈ required, d.contains key = some true) →
      ¬ ∃ dev, d = .table dev ∧ DeviceTyped py dev) := by
  cases d with
  | table dev =>
    rcases bind_eq_error h with h | ⟨name, hname, h⟩
    · -- there is no driver to choose
      obtain ⟨hnone, he⟩ := orBuiltin_eq_error h
      refine .inr (.inr ⟨he, fun hkeys => ?_⟩)
      have hdriver := hkeys "driver" (by simp [required])
      rw [contains_table, hnone] at hdriver
      cases hdriver
    have hname := orBuiltin_eq_ok hname
    rcases bind_eq_error h with h | ⟨u, -, h⟩
    · rcases getDriver_eq_error h with ⟨he, hunknown⟩ | ⟨he, hhash⟩
      · exact .inl ⟨dev, name, rfl, hname, hunknown, he⟩
      · refine .inr (.inr ⟨he, ?_⟩)
        rintro - ⟨dev', hdev, ht⟩
        cases hdev
        rw [ht.driver name hname] at hhash
        cases hhash
    rcases bind_eq_error h with h | ⟨chs, hchs, h⟩
    · -- the channels cannot be gone through
      obtain ⟨hnone, he⟩ := orBuiltin_eq_error h
      refine .inr (.inr ⟨he, ?_⟩)
      rintro - ⟨dev', hdev, ht⟩
      cases hdev
      obtain ⟨chs, hchs, -⟩ := ht.channels
      rw [hnone] at hchs
      cases hchs
    have hchs := orBuiltin_eq_ok hchs
    rcases addChannels_error h with ⟨n, he, htwice⟩ | ⟨he, ch, hch, hnone⟩
    · rw [← channelsOf_table hchs] at htwice
      exact .inr (.inl ⟨n, he, htwice⟩)
    · refine .inr (.inr ⟨he, ?_⟩)
      rintro hkeys ⟨dev', hdev, ht⟩
      cases hdev
      have hsome := streamConfig_isSome ht hkeys hchs hch
      rw [hnone] at hsome
      cases hsome
  | _ =>
    cases h
    refine .inr (.inr ⟨rfl, ?_⟩)
    rintro - ⟨dev, hdev, -⟩
    cases hdev

theorem addDevices_grown {hub hub' : List StreamConfig} {devs : List Toml}
    (h : addDevices py hub devs = .ok hub') : Grown py hub hub' (listed devs) := by
  induction devs generalizing hub with
  | nil =>
    cases h
    exact .refl _
  | cons d devs ih =>
    obtain ⟨hub₁, hd, h⟩ := bind_eq_ok h
    exact (addDevice_grown hd).trans (ih h)

/-- Growing by channels that convert is what `streamsOf` says. -/
theorem Grown.eq {hub hub' : List StreamConfig} {ps : List (List (Str × Toml) × Toml)}
    (h : Grown py hub hub' ps) : hub' = hub ++ streamsOf py ps := by
  obtain ⟨new, rfl, hnew⟩ := h.grown
  have hps : streamsOf py ps = (ps.map fun p => streamConfig py p.1 p.2).filterMap id := by
    rw [List.filterMap_map]
    rfl
  rw [hps, ← hnew, List.filterMap_map]
  exact congrArg (hub ++ ·) (List.filterMap_some).symm

theorem addDevices_error {hub : List StreamConfig} {devs : List Toml} {e : Exn}
    (h : addDevices py hub devs = .error e) :
    (∃ dev name, .table dev ∈ devs ∧ Toml.lookup dev "driver" = some name ∧
      name.isText "netdvr3" = false ∧ e = .unknownDriver name) ∨
    (∃ name, e = .duplicateName name ∧
      List.Duplicate name ((hub ++ streamsOf py (listed devs)).map (·.name))) ∨
    e = .builtin ∧ ∃ d ∈ devs, (∀ key ∈ required, d.contains key = some true) →
      ¬ ∃ dev, d = .table dev ∧ DeviceTyped py dev := by
  induction devs generalizing hub with
  | nil => cases h
  | cons d devs ih =>
    have happ : streamsOf py (listed (d :: devs)) =
        streamsOf py (channelsOf d) ++ streamsOf py (listed devs) := List.filterMap_append
    rcases bind_eq_error h with h | ⟨hub₁, hd, h⟩
    · rcases addDevice_error h with ⟨dev, name, rfl, hrest⟩ | ⟨name, he, htwice⟩ | ⟨he, hbad⟩
      · exact .inl ⟨dev, name, List.mem_cons_self .., hrest⟩
      · refine .inr (.inl ⟨name, he, htwice.mono_sublist ?_⟩)
        rw [happ, ← List.append_assoc]
        exact (List.sublist_append_left _ _).map _
      · exact .inr (.inr ⟨he, d, List.mem_cons_self .., hbad⟩)
    · rcases ih h with ⟨dev, name, hmem, hrest⟩ | ⟨name, he, htwice⟩ | ⟨he, d', hd', hbad⟩
      · exact .inl ⟨dev, name, List.mem_cons_of_mem d hmem, hrest⟩
      · refine .inr (.inl ⟨name, he, ?_⟩)
        rwa [happ, ← List.append_assoc, ← (addDevice_grown hd).eq]
      · exact .inr (.inr ⟨he, d', List.mem_cons_of_mem d hd', hbad⟩)

/-! The hub that is returned is the one of `DvrBridge.buildHub`. -/

/-- The streams, if their names differ. -/
def ifDistinct (hub : List StreamConfig) : Option (List StreamConfig) :=
  if (hub.map (·.name)).Nodup then some hub else none

theorem ifDistinct_eq_some {hub : List StreamConfig} (h : (hub.map (·.name)).Nodup) :
    ifDistinct hub = some hub := if_pos h

/-- Names that clash at once clash in the end. -/
theorem ifDistinct_bind {β : Type} (hub : List StreamConfig) (x : Option β)
    (f : β → List StreamConfig) :
    ((ifDistinct hub).bind fun hub => x.bind fun b => ifDistinct (hub ++ f b)) =
      x.bind fun b => ifDistinct (hub ++ f b) := by
  by_cases hn : (hub.map (·.name)).Nodup
  · rw [ifDistinct_eq_some hn, Option.bind_some]
  · have happ (b : β) : ifDistinct (hub ++ f b) = none := by
      refine if_neg fun hn' => hn ?_
      rw [List.map_append] at hn'
      exact (List.nodup_append'.mp hn').1
    have hnone : ifDistinct hub = none := if_neg hn
    cases x with
    | none => rw [hnone]; rfl
    | some b => rw [hnone, Option.bind_none, Option.bind_some, happ]

theorem nodup_of_ifDistinct {hub hub' : List StreamConfig} (h : ifDistinct hub = some hub') :
    hub = hub' ∧ (hub'.map (·.name)).Nodup := by
  unfold ifDistinct at h
  split at h
  · rename_i hn
    cases h
    exact ⟨rfl, hn⟩
  · cases h

theorem add_toOption {hub : List StreamConfig} (hn : (hub.map (·.name)).Nodup)
    (s : StreamConfig) : (add hub s).toOption = ifDistinct (hub ++ [s]) := by
  have hiff : ((hub ++ [s]).map (·.name)).Nodup ↔ ¬ hub.any (·.name = s.name) = true := by
    rw [taken_iff, List.map_append, List.map_singleton, List.nodup_append']
    simp [hn]
  unfold add ifDistinct
  by_cases hs : hub.any (·.name = s.name) = true
  · rw [if_pos hs, if_neg (mt hiff.mp (not_not.mpr hs))]
    rfl
  · rw [if_neg hs, if_pos (hiff.mpr hs)]
    rfl

theorem addChannels_toOption (dev : List (Str × Toml)) {hub : List StreamConfig}
    (hn : (hub.map (·.name)).Nodup) (chs : List Toml) :
    (addChannels py dev hub chs).toOption =
      (chs.mapM (streamConfig py dev)).bind fun new => ifDistinct (hub ++ new) := by
  induction chs generalizing hub with
  | nil =>
    rw [List.mapM_nil, Option.pure_def, Option.bind_some, List.append_nil, ifDistinct_eq_some hn]
    rfl
  | cons ch chs ih =>
    rw [addChannels, toOption_bind, toOption_orBuiltin, List.mapM_cons]
    cases streamConfig py dev ch with
    | none => rfl
    | some s =>
      rw [Option.bind_some, toOption_bind, add_toOption hn]
      change _ = ((chs.mapM (streamConfig py dev)).bind fun new => some (s :: new)).bind _
      have hadd : (fun new => (some (s :: new)).bind fun new => ifDistinct (hub ++ new)) =
          fun new => ifDistinct (hub ++ [s] ++ id new) := by
        funext new
        rw [Option.bind_some, List.append_cons]
        rfl
      rw [Option.bind_assoc, hadd, ← ifDistinct_bind]
      refine Option.bind_congr fun hub' hadd => ?_
      obtain ⟨rfl, hn'⟩ := nodup_of_ifDistinct hadd
      exact ih hn'

theorem addDevice_toOption {hub : List StreamConfig} (hn : (hub.map (·.name)).Nodup) (d : Toml) :
    (addDevice py hub d).toOption =
      (deviceStreams py d).bind fun new => ifDistinct (hub ++ new) := by
  have hdriver (name : Toml) : (getDriver name).toOption = guard (name.isText "netdvr3" = true) := by
    unfold getDriver
    cases name with
    | str s => cases (Toml.str s).isText "netdvr3" <;> rfl
    | _ => rfl
  cases d with
  | table dev =>
    simp only [addDevice, deviceStreams, toOption_bind, toOption_orBuiltin, hdriver,
      addChannels_toOption dev hn]
    simp only [bind, Option.bind_assoc]
  | _ => rfl

theorem addDevices_toOption {hub : List StreamConfig} (hn : (hub.map (·.name)).Nodup)
    (devs : List Toml) :
    (addDevices py hub devs).toOption =
      (devs.mapM (deviceStreams py)).bind fun streams => ifDistinct (hub ++ streams.flatten) := by
  induction devs generalizing hub with
  | nil =>
    rw [List.mapM_nil, Option.pure_def, Option.bind_some, List.flatten_nil, List.append_nil,
      ifDistinct_eq_some hn]
    rfl
  | cons d devs ih =>
    rw [addDevices, toOption_bind, addDevice_toOption hn, List.mapM_cons]
    cases deviceStreams py d with
    | none => rfl
    | some new =>
      change (ifDistinct (hub ++ new)).bind _ =
        ((devs.mapM (deviceStreams py)).bind fun streams => some (new :: streams)).bind _
      rw [Option.bind_assoc]
      simp only [Option.bind_some, List.flatten_cons, ← List.append_assoc]
      rw [← ifDistinct_bind (hub ++ new) (devs.mapM (deviceStreams py)) List.flatten]
      refine Option.bind_congr fun hub' hadd => ?_
      obtain ⟨rfl, hn'⟩ := nodup_of_ifDistinct hadd
      exact ih hn'

theorem buildHub_toOption (cfg : Config) :
    (buildHub py cfg).toOption = DvrBridge.buildHub py cfg := by
  have hn : (([] : List StreamConfig).map (·.name)).Nodup := List.nodup_nil
  rw [buildHub, addDevices_toOption hn, DvrBridge.buildHub]
  congr 1
  funext streams
  rw [List.nil_append, ifDistinct, guard]
  split <;> rfl

/-! The start of the daemon. -/

theorem eq_ok_iff_toOption {ε α : Type} {x : Except ε α} {a : α} :
    x = .ok a ↔ x.toOption = some a := by
  cases x <;> simp [Except.toOption]

theorem configOf_eq_ok_iff {raw : List (Str × Toml)} {cfg : Config} :
    configOf raw = .ok cfg ↔ DvrBridge.loadConfig raw = some cfg := by
  rw [eq_ok_iff_toOption, configOf_toOption]

theorem buildHub_error {raw : List (Str × Toml)} {cfg : Config}
    (hcfg : DvrBridge.loadConfig raw = some cfg) {e : Exn} (h : buildHub py cfg = .error e) :
    Escape py raw e := by
  obtain ⟨srv, -, -, htrue, hiter, hkeys⟩ := loadConfig_eq_some hcfg
  rcases addDevices_error h with ⟨dev, name, hdev, hname, hunknown, rfl⟩ | ⟨name, rfl, htwice⟩ |
    ⟨rfl, d, hd, hbad⟩
  · exact .unknownDriver hcfg hdev hname hunknown
  · exact .duplicateName hcfg htwice
  · exact .builtin fun ht => hbad (hkeys d hd) (ht.device htrue hiter hd)

theorem serve_accounted (path : Str) (raw : List (Str × Toml)) :
    Accounted py raw (serve py path (.document raw)) := by
  rw [serve, loadConfig]
  cases hcfg : configOf raw with
  | error e =>
    rcases configOf_error hcfg with ⟨text, rfl, hc⟩ | ⟨rfl, ht⟩
    · exact ⟨rfl, hc⟩
    · exact .builtin ht
  | ok cfg =>
    have hacc := configOf_eq_ok_iff.mp hcfg
    change Accounted py raw (match (buildHub py cfg).map (cfg, ·) with
      | .ok (cfg, hub) => .serving cfg hub
      | .error (.configError text) => .exited 2 text
      | .error e => .raised e)
    cases hhub : buildHub py cfg with
    | error e =>
      have hesc := buildHub_error hacc hhub
      cases hesc with
      | unknownDriver accepted mem driver unknown =>
        exact .unknownDriver accepted mem driver unknown
      | duplicateName accepted twice => exact .duplicateName accepted twice
      | builtin mistyped => exact .builtin mistyped
    | ok hub =>
      have hgrown := addDevices_grown hhub
      obtain ⟨new, hnew, hstreams⟩ := hgrown.grown
      rw [List.nil_append] at hnew
      subst hnew
      exact ⟨hacc, hstreams, hgrown.names List.nodup_nil⟩

/-- Whatever the document is, the daemon starts with one stream for each listed channel, or it logs
a failing check and exits with status 2, or a driver is not registered, or a stream's name is
taken, or a value is of a wrong type. Where the types are right, a failing check is what is logged. -/
theorem serve_document (py : Builtins) (path : Str) (raw : List (Str × Toml)) :
    Accounted py raw (serve py path (.document raw)) ∧
      (Typed py raw → (∃ text, Complaint raw text) →
        ∃ text, serve py path (.document raw) = .exited 2 text ∧ Complaint raw text) := by
  have hacc : Accounted py raw _ := serve_accounted path raw
  refine ⟨hacc, ?_⟩
  rintro ht ⟨text, hc⟩
  cases hs : serve py path (.document raw) with
  | serving cfg hub =>
    rw [hs] at hacc
    exact absurd hacc.accepted (hc.rejected cfg)
  | exited status logged =>
    rw [hs] at hacc
    obtain ⟨rfl, hlogged⟩ := hacc
    exact ⟨logged, rfl, hlogged⟩
  | raised e =>
    rw [hs] at hacc
    cases hacc with
    | unknownDriver accepted => exact absurd accepted (hc.rejected _)
    | duplicateName accepted => exact absurd accepted (hc.rejected _)
    | builtin mistyped => exact absurd ht mistyped

/-- A file with one device of the driver `nope`. -/
def nopeFile : List (Str × Toml) :=
  [("device".toList, .array [.table [("name".toList, .str "d".toList),
    ("driver".toList, .str "nope".toList), ("host".toList, .str "h".toList)]])]

/-- The `KeyError` of an unknown driver is not caught. -/
theorem not_serve_document : ¬ ∀ (py : Builtins) (path : Str) (raw : List (Str × Toml)),
    (∃ cfg hub, serve py path (.document raw) = .serving cfg hub ∧ OneStreamEach py raw cfg hub) ∨
      ∃ text, serve py path (.document raw) = .exited 2 text := by
  intro h
  have hserve (py : Builtins) : serve py [] (.document nopeFile) =
      .raised (.unknownDriver (.str "nope".toList)) := rfl
  rcases h ⟨fun _ => [], fun _ => none⟩ [] nopeFile with ⟨cfg, hub, hs, -⟩ | ⟨text, hs⟩
  · rw [hserve] at hs
    cases hs
  · rw [hserve] at hs
    cases hs

end DvrBridge.ConfigErrors
