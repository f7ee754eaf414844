import DvrBridge.NetDvr3Contract
import DvrBridge.SpsFields

/-! The probe of a device: what the first frame of each channel says of it, and which devices it
survives. -/
namespace DvrBridge.Probe
open H264 Machine NetDvr3

/-- The failures that the probe handles. -/
inductive Failure where
  | driverError
  | osError
  /-- of `asyncio.timeout` -/
  | timeoutError
  deriving DecidableEq

/-- What the network and the device make of a call of `frames`. -/
structure Dialogue where
  /-- `open_connection` succeeds in time -/
  connects : Bool
  /-- `drv.info` when the first frame comes -/
  info : StreamInfo
  frames : List VideoFrame
  ending : Failure

structure Args where
  username : Str
  password : Str
  maxChannels : Int

/-- How the generator ends; another exception than a failure is an `IndexError` or a `ValueError`. -/
inductive Ending where
  | failed (why : Failure)
  | raised (e : ReadError)
  deriving DecidableEq

/-- `NetDvr3Driver(…, ch).frames()` -/
def frames (args : Args) (ch : Int) (d : Dialogue) : List VideoFrame × Ending :=
  if d.connects then
    match buildStartStream args.username args.password ch false with
    | some _ => (d.frames, .failed d.ending)
    | none => ([], .raised (.valueError ("channel out of range: " ++ toString ch)))
  else ([], .failed .driverError)

/-- The dictionary that `_probe_channel` returns. -/
structure ChannelInfo where
  channel : Int
  deviceId : Option Str
  firmware : Option Str
  resolution : Option Int × Option Int
  channelCount : Option Nat
  deriving DecidableEq

/-- The loop over the NALs of the first frame; `res` is the size in the last SPS so far. -/
def resolutionFrom (res : Option (Int × Int)) : List Bytes → Except ReadError (Option (Int × Int))
  | [] => .ok res
  | n :: ns =>
    if nalType n = nalSps then
      match parseSps n with
      | .ok s => resolutionFrom (some (s.width, s.height)) ns
      | .error e => .error e
    else resolutionFrom res ns

/-- The body of the loop over the frames: it ends in a `return`. -/
def channelInfo (ch : Int) (info : StreamInfo) (frame : VideoFrame) :
    Except ReadError ChannelInfo :=
  (resolutionFrom none (iterNals frame.payload)).map fun res =>
    { channel := ch
      deviceId := info.deviceId
      firmware := info.firmware
      resolution := match res with
        | some (width, height) => (some width, some height)
        | none => (info.width.map (·), info.height.map (·))
      channelCount := info.channelCount }

/-- `_probe_channel`; an error is an exception that it does not catch. -/
def probeChannel (args : Args) (ch : Int) (d : Dialogue) : Except ReadError (Option ChannelInfo) :=
  match frames args ch d with
  | (frame :: _, _) => (channelInfo ch d.info frame).map some
  | ([], .failed _) => .ok none
  | ([], .raised e) => .error e

/-- Boards wrap the channel byte modulo their channel count. -/
def ChannelInfo.narrow (info : ChannelInfo) (limit : Int) : Int :=
  match info.channelCount with
  | some nch => if nch ≠ 0 ∧ (nch : Int) < limit then nch else limit
  | none => limit

theorem ChannelInfo.narrow_le (info : ChannelInfo) (limit : Int) : info.narrow limit ≤ limit := by
  unfold narrow
  split
  · split <;> omega
  · exact Int.le_refl limit

/-- The loop of `_probe` over the channels. -/
def probeFrom (args : Args) (device : Int → Dialogue) (ch limit : Int) (found : List Int) :
    Except ReadError (List Int) :=
  if ch ≤ limit then
    match probeChannel args ch (device ch) with
    | .error e => .error e
    | .ok none => probeFrom args device (ch + 1) limit found
    | .ok (some info) => probeFrom args device (ch + 1) (info.narrow limit) (found ++ [ch])
  else .ok found
termination_by (limit + 1 - ch).toNat
decreasing_by
  · omega
  · have := info.narrow_le limit
    omega

/-- `_probe`: the channels that it prints and the exit status. -/
def probe (args : Args) (device : Int → Dialogue) : Except ReadError (List Int × Int) :=
  (probeFrom args device 1 args.maxChannels []).map fun found =>
    (found, if found = [] then 1 else 0)

/-! What the parser needs of a frame. -/

/-- Every SPS in the frame holds its fields up to the cropping. -/
def Legible (frame : VideoFrame) : Prop :=
  ∀ n ∈ iterNals frame.payload, nalType n = nalSps → HoldsFields n

theorem resolutionFrom_ok_iff (res : Option (Int × Int)) (ns : List Bytes) :
    (∃ r, resolutionFrom res ns = .ok r) ↔ ∀ n ∈ ns, nalType n = nalSps → HoldsFields n := by
  induction ns generalizing res with
  | nil => exact iff_of_true ⟨res, rfl⟩ (by simp)
  | cons n ns ih =>
    rw [List.forall_mem_cons, resolutionFrom]
    by_cases hn : nalType n = nalSps
    · have hparse := parseSps_eq_ok_iff n
      rw [if_pos hn, ← hparse]
      cases hs : parseSps n with
      | ok s => simpa [hn] using ih (some (s.width, s.height))
      | error e => simp [hn]
    · rw [if_neg hn, ih res]
      simp [hn]

theorem channelInfo_ok_iff (ch : Int) (info : StreamInfo) (frame : VideoFrame) :
    (∃ r, channelInfo ch info frame = .ok r) ↔ Legible frame := by
  rw [Legible, ← resolutionFrom_ok_iff none, channelInfo]
  cases resolutionFrom none (iterNals frame.payload) with
  | ok res => simp [Except.map]
  | error e => simp [Except.map]

/-- The first frame that the generator yields. -/
def Dialogue.first (d : Dialogue) : Option VideoFrame := if d.connects then d.frames.head? else none

theorem frames_of_channel (args : Args) {ch : Int} (h : 1 ≤ ch ∧ ch ≤ 256) (d : Dialogue) :
    frames args ch d =
      if d.connects then (d.frames, .failed d.ending) else ([], .failed .driverError) := by
  rw [frames, buildStartStream, if_pos h]

/-- The driver's configuration in a probe. -/
def config (args : Args) (host : Toml) (port ch : Int) : StreamConfig :=
  { name := [], host := host, username := .str args.username, password := .str args.password,
    channel := ch, substream := false, port := port, alwaysOn := false, linger := .finite 0 }

/-- Whatever the device does with the driver, a dialogue has the same frames and the same end. -/
theorem session_dialogue {unusable : Toml → Int → Bool} {args : Args} {host : Toml} {port ch : Int}
    (h : 1 ≤ ch ∧ ch ≤ 256) (hu : unusable host port = false) {is : List SessionInput} {s : Session}
    {out : List VideoFrame}
    (hr : run (Session.step unusable (config args host port ch)) .connecting is = some (s, out)) :
    ∃ d, (frames args ch d).1 = out ∧
      (s = .ended .driverError → (frames args ch d).2 = .failed .driverError) ∧
      (s = .ended .osError → (frames args ch d).2 = .failed .osError) ∧ s ≠ .ended .other := by
  have hkeeps : Session.KeepsContract unusable (config args host port ch) := by
    rw [Session.keepsContract_iff, startPacket_isSome_iff]
    exact ⟨⟨rfl, rfl, h⟩, hu⟩
  have hother : s ≠ .ended .other := fun hs => Bool.false_ne_true (hkeeps is s out hr _ hs)
  by_cases hs : s = .ended .osError
  · refine ⟨⟨true, {}, out, .osError⟩, ?_, ?_, ?_, hother⟩
    · rw [frames_of_channel args h, if_pos rfl]
    · intro hd
      rw [hs] at hd
      cases hd
    · intro _
      rw [frames_of_channel args h, if_pos rfl]
  · refine ⟨⟨true, {}, out, .driverError⟩, ?_, ?_, fun ho => absurd ho hs, hother⟩
    · rw [frames_of_channel args h, if_pos rfl]
    · intro _
      rw [frames_of_channel args h, if_pos rfl]

/-- Where no channel's probe raises, every channel up to the limit is found or has no stream. -/
theorem probeFrom_ok (args : Args) (device : Int → Dialogue) (ch limit : Int) (found : List Int)
    (h : ∀ c, ch ≤ c → c ≤ limit → ∃ r, probeChannel args c (device c) = .ok r) :
    ∃ more, probeFrom args device ch limit found = .ok (found ++ more) ∧
      ∀ c ∈ more, ch ≤ c ∧ c ≤ limit ∧
        ∃ info, probeChannel args c (device c) = .ok (some info) := by
  induction ch, limit, found using probeFrom.induct args device with
  | case1 ch limit found hle e he =>
    obtain ⟨r, hr⟩ := h ch (Int.le_refl ch) hle
    rw [hr] at he
    cases he
  | case2 ch limit found hle hnone ih =>
    obtain ⟨more, hm, hall⟩ := ih fun c hc hcl => h c (by omega) hcl
    refine ⟨more, ?_, fun c hc => ?_⟩
    · rw [probeFrom, if_pos hle, hnone]
      exact hm
    · obtain ⟨h₁, h₂⟩ := hall c hc
      exact ⟨by omega, h₂⟩
  | case3 ch limit found hle info hsome ih =>
    have hnarrow := info.narrow_le limit
    obtain ⟨more, hm, hall⟩ := ih fun c hc hcl => h c (by omega) (by omega)
    refine ⟨ch :: more, ?_, ?_⟩
    · rw [probeFrom, if_pos hle, hsome, List.append_cons found ch more]
      exact hm
    · intro c hc
      rcases List.mem_cons.mp hc with rfl | hc
      · exact ⟨Int.le_refl c, hle, info, hsome⟩
      · obtain ⟨h₁, h₂, h₃⟩ := hall c hc
        exact ⟨by omega, by omega, h₃⟩
  | case4 ch limit found hgt =>
    exact ⟨[], by rw [probeFrom, if_neg hgt, List.append_nil], by simp⟩

/-- One channel's exception ends the probe of all that are left. -/
theorem probeFrom_error {args : Args} {device : Int → Dialogue} {ch limit : Int} (hle : ch ≤ limit)
    {e : ReadError} (he : probeChannel args ch (device ch) = .error e) (found : List Int) :
    probeFrom args device ch limit found = .error e := by
  rw [probeFrom, if_pos hle, he]

/-- The probe gets to its end where no channel's probe raises; the channels it finds are within the
limit and have a stream. -/
theorem probe_survives (args : Args) (device : Int → Dialogue)
    (h : ∀ c, 1 ≤ c → c ≤ args.maxChannels → ∃ r, probeChannel args c (device c) = .ok r) :
    ∃ found, probe args device = .ok (found, if found = [] then 1 else 0) ∧
      ∀ c ∈ found, 1 ≤ c ∧ c ≤ args.maxChannels ∧
        ∃ info, probeChannel args c (device c) = .ok (some info) := by
  obtain ⟨found, hf, hall⟩ := probeFrom_ok args device 1 args.maxChannels [] h
  refine ⟨found, ?_, hall⟩
  rw [probe, hf]
  rfl

/-- On a channel of the protocol the probe returns exactly if the device gets no frame through or the
parameter sets in its first frame hold all the fields that are read. -/
theorem probeChannel_returns_iff (args : Args) (ch : Int) (h : 1 ≤ ch ∧ ch ≤ 256) (d : Dialogue) :
    (∃ r, probeChannel args ch d = .ok r) ↔ ∀ frame, d.first = some frame → Legible frame := by
  rw [probeChannel, frames_of_channel args h, Dialogue.first]
  by_cases hc : d.connects = true
  · rw [if_pos hc, if_pos hc]
    cases hf : d.frames with
    | nil => simp
    | cons frame rest =>
      have hinfo := channelInfo_ok_iff ch d.info frame
      cases hr : channelInfo ch d.info frame with
      | ok r => simpa [hr, Except.map] using hinfo
      | error e => simpa [hr, Except.map] using hinfo
  · rw [if_neg hc, if_neg hc]
    simp

theorem exists_ok_iff {ε α : Type} {x : Except ε α} : (∃ a, x = .ok a) ↔ x.isOk = true := by
  cases x with
  | ok a => exact iff_of_true ⟨a, rfl⟩ rfl
  | error e => exact iff_of_false (fun ⟨_, h⟩ => nomatch h) Bool.false_ne_true

/-- An access unit of one SPS. -/
def spsFrame (sps : Bytes) : VideoFrame := { payload := start4 ++ sps }

/-- The SPS of a High profile stream. -/
def sps720 : Bytes := [0x67, 100, 0, 31, 172, 217, 64, 80, 5, 187, 1, 16, 0, 0, 3, 0, 16, 0, 0, 3, 3]

/-- A device with one frame to send. -/
def oneFrame (frame : VideoFrame) : Dialogue := ⟨true, {}, [frame], .driverError⟩

def plainArgs : Args := ⟨"admin".toList, "".toList, 8⟩

theorem probeChannel_sps720 : Legible (spsFrame sps720) :=
  (probeChannel_returns_iff plainArgs 1 (by decide) (oneFrame (spsFrame sps720))).mp
    (exists_ok_iff.mpr (by decide +kernel)) _ rfl

/-- What the driver reads from a device whose first SPS is one byte long. -/
def cutBytes : Bytes :=
  [1, 0, 0, 0, 0x63, 0, 0x0c, 0, 0, 0, 0, 0, 1, 0x10, 0, 0, 0, 0, 0, 0, 0x64, 0, 1, 0,
   0, 0, 0, 1, 0x67, 2, 0, 0, 0, 0x63, 0, 0x0c, 0]

/-- A driver yields a frame whose SPS ends behind its header byte, and the probe dies of it. -/
theorem not_probeChannel_returns :
    (∃ is s, run (Session.step (fun _ _ => false) (config plainArgs (.str []) 8888 1)) .connecting is
      = some (s, [{ spsFrame [0x67] with tsMs := some 0, keyframe := true }])) ∧
    ¬ ∀ (args : Args) (ch : Int) (d : Dialogue), 1 ≤ ch ∧ ch ≤ 256 →
      ∃ r, probeChannel args ch d = .ok r := by
  constructor
  · have hout : (run (Session.step (fun _ _ => false) (config plainArgs (.str []) 8888 1)) .connecting
        [.connected, .drained, .parser (.data cutBytes), .parser .go, .parser .go, .parser .go]).map
          (·.2) = some [{ spsFrame [0x67] with tsMs := some 0, keyframe := true }] := by
      decide +kernel
    obtain ⟨⟨s, out⟩, hr, rfl⟩ := Option.map_eq_some_iff.mp hout
    exact ⟨_, s, hr⟩
  · intro h
    have hok := exists_ok_iff.mp (h plainArgs 1 (oneFrame (spsFrame [0x67])) (by decide))
    exact absurd hok (by decide +kernel)

end DvrBridge.Probe
