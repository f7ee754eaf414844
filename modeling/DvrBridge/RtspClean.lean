import DvrBridge.RtspSteps
import DvrBridge.RtspWire

/-! The responses of a connection take no line break from a request. -/
namespace DvrBridge
open PyText

theorem newline_not_mem_hex (bs : Bytes) : '\n' ∉ hex bs := by
  intro h
  obtain ⟨b, -, hb⟩ := List.mem_flatMap.mp h
  have hdigits : ∀ b : UInt8,
      '\n' ∉ [Nat.digitChar (b.toNat / 16), Nat.digitChar (b.toNat % 16)] :=
    forall_byte (by decide +kernel)
  exact hdigits b hb

theorem newline_not_mem_upper {s : Str} (h : '\n' ∉ s) : '\n' ∉ upper s := by
  intro hm
  obtain ⟨c, hc, he⟩ := List.mem_map.mp hm
  split at he
  · rename_i hr
    have h97 : 97 ≤ c.toNat := UInt32.le_iff_toNat_le.mp hr.1
    have h122 : c.toNat ≤ 122 := UInt32.le_iff_toNat_le.mp hr.2
    have hletter : ∀ k < 26, Char.ofNat (65 + k) ≠ '\n' := by decide +kernel
    have hk : 65 + (c.toNat - 97) = c.toNat - 32 := by omega
    exact hletter (c.toNat - 97) (by omega) (hk ▸ he)
  · exact h (he ▸ hc)

namespace Conn

theorem header_mem {name : String} (h : name ∈ ["CSeq", "Public", "Content-Base", "Content-Type",
    "Transport", "Session", "Range", "RTP-Info", "WWW-Authenticate"]) :
    name.toList ∈ headerNames := List.mem_map_of_mem h

theorem bare_clean {code : Nat} {reason : String} (h : '\n' ∉ reason.toList) :
    ({ code := code, reason := reason.toList } : Response).Clean := ⟨h, by simp⟩

theorem newline_not_mem_reason : ∀ e ∈ [RtspError.badRequest, .unauthorized, .notFound,
    .bodyTooLarge, .headersTooLarge, .badState, .unsupportedTransport, .notImplemented],
    '\n' ∉ e.reason.toList := by decide

theorem ofError_clean {e : RtspError} {cseq : Str} (he : '\n' ∉ e.reason.toList)
    (hc : '\n' ∉ cseq) : (Response.ofError e cseq).Clean := by
  refine ⟨he, fun h hm => ?_⟩
  rcases List.mem_cons.mp hm with rfl | hm
  · exact ⟨header_mem (by simp), hc⟩
  · split at hm
    · cases List.mem_singleton.mp hm
      exact ⟨header_mem (by simp), by decide⟩
    · cases hm

theorem timeout_clean {cseq : Str} (hc : '\n' ∉ cseq) :
    (⟨504, "Gateway Timeout".toList, [("CSeq".toList, cseq)], []⟩ : Response).Clean := by
  have hreason : '\n' ∉ "Gateway Timeout".toList := by decide
  refine ⟨hreason, fun h hm => ?_⟩
  cases List.mem_singleton.mp hm
  exact ⟨header_mem (by simp), hc⟩

theorem ok_clean {headers : List (Str × Str)} {body : Bytes}
    (h : ∀ e ∈ headers, e.1 ∈ headerNames ∧ '\n' ∉ e.2) : (Response.ok headers body).Clean := by
  have hreason : '\n' ∉ "OK".toList := by decide
  exact ⟨hreason, h⟩

theorem newline_not_mem_ssrcField (c : Conn) : '\n' ∉ c.ssrcField := by
  have hname : '\n' ∉ ";ssrc=".toList := by decide
  exact List.not_mem_append hname (newline_not_mem_upper (newline_not_mem_hex _))

/-- Two numbers with a dash. -/
theorem newline_not_mem_range {name : Str} (h : '\n' ∉ name) (a b : Int) :
    '\n' ∉ name ++ decimalInt a ++ ['-'] ++ decimalInt b := by
  have hdash : '\n' ∉ ['-'] := by decide
  exact List.not_mem_append (List.not_mem_append (List.not_mem_append h
    (newline_not_mem_decimalInt a)) hdash) (newline_not_mem_decimalInt b)

theorem newline_not_mem_interleavedTransport (c : Conn) (v : Int × Int) :
    '\n' ∉ c.interleavedTransport v := by
  have hname : '\n' ∉ "RTP/AVP/TCP;unicast;interleaved=".toList := by decide
  exact List.not_mem_append (newline_not_mem_range hname v.1 v.2) (newline_not_mem_ssrcField c)

theorem newline_not_mem_udpTransport (c : Conn) (clientPort serverPort : Int) :
    '\n' ∉ c.udpTransport clientPort serverPort := by
  have hclient : '\n' ∉ "RTP/AVP;unicast;client_port=".toList := by decide
  have hserver : '\n' ∉ ";server_port=".toList := by decide
  have hports := newline_not_mem_range hclient clientPort (clientPort + 1)
  exact List.not_mem_append (newline_not_mem_range (List.not_mem_append hports hserver)
    serverPort (serverPort + 1)) (newline_not_mem_ssrcField c)

theorem setupAnswer_clean {c : Conn} {cseq transport : Str} {r : Response} {k : After}
    (h : c.setupAnswer cseq transport = .answer r k) (hs : '\n' ∉ c.sessionId.getD [])
    (hc : '\n' ∉ cseq) (ht : '\n' ∉ transport) : r.Clean := by
  cases h
  refine ok_clean fun e he => ?_
  simp only [List.mem_cons, List.not_mem_nil, or_false] at he
  rcases he with rfl | rfl | rfl
  · exact ⟨header_mem (by simp), hc⟩
  · exact ⟨header_mem (by simp), ht⟩
  · have htimeout : '\n' ∉ ";timeout=60".toList := by decide
    exact ⟨header_mem (by simp), List.not_mem_append hs htimeout⟩

theorem sessionAnswer_clean {c : Conn} {cseq : Str} {k k' : After} {r : Response}
    (h : c.sessionAnswer cseq k = .answer r k') (hs : '\n' ∉ c.sessionId.getD [])
    (hc : '\n' ∉ cseq) : r.Clean := by
  cases h
  refine ok_clean fun e he => ?_
  simp only [List.mem_cons, List.not_mem_nil, or_false] at he
  rcases he with rfl | rfl
  · exact ⟨header_mem (by simp), hc⟩
  · exact ⟨header_mem (by simp), hs⟩

theorem onPlay_clean {c : Conn} {url cseq : Str} {k : After} {r : Response}
    (h : c.onPlay url cseq = .answer r k) (hs : '\n' ∉ c.sessionId.getD [])
    (hu : '\n' ∉ url) (hc : '\n' ∉ cseq) : r.Clean := by
  unfold onPlay at h
  split at h
  · cases h
  · cases h
    refine ok_clean fun e he => ?_
    simp only [List.mem_cons, List.not_mem_nil, or_false] at he
    rcases he with rfl | rfl | rfl | rfl
    · exact ⟨header_mem (by simp), hc⟩
    · exact ⟨header_mem (by simp), hs⟩
    · exact ⟨header_mem (by simp), by decide⟩
    · have hurl : '\n' ∉ "url=".toList := by decide
      have htrack : '\n' ∉ "/track0;seq=".toList := by decide
      exact ⟨header_mem (by simp), List.not_mem_append (List.not_mem_append (List.not_mem_append hurl
        (newline_not_mem_rstripChar hu)) htrack) (newline_not_mem_decimal _)⟩

theorem describeAnswer_clean {url s cseq : Str} {sps pps : Option Bytes} {info : StreamInfo}
    {k : After} {r : Response} (h : describeAnswer url s cseq sps pps info = .answer r k)
    (hu : '\n' ∉ url) (hc : '\n' ∉ cseq) : r.Clean := by
  unfold describeAnswer at h
  split at h
  · cases h
    refine ok_clean fun e he => ?_
    simp only [List.mem_cons, List.not_mem_nil, or_false] at he
    rcases he with rfl | rfl | rfl
    · exact ⟨header_mem (by simp), hc⟩
    · have hslash : '\n' ∉ ['/'] := by decide
      exact ⟨header_mem (by simp), List.not_mem_append (newline_not_mem_rstripChar hu) hslash⟩
    · exact ⟨header_mem (by simp), by decide⟩
  · cases h

theorem handle_clean {srv : Server} {c c₁ : Conn} {m : Method} {url : Str} {headers : Headers}
    {cseq token : Str} {o : List Effect} {r : Response} {k : After} (hm : m ≠ .setup)
    (h : c.handle srv m url headers cseq token = (c₁, o, .answer r k))
    (hs : '\n' ∉ c.sessionId.getD []) (hu : '\n' ∉ url) (hc : '\n' ∉ cseq) : r.Clean := by
  cases m with
  | setup => exact absurd rfl hm
  | options =>
    cases h
    refine ok_clean fun e he => ?_
    simp only [List.mem_cons, List.not_mem_nil, or_false] at he
    rcases he with rfl | rfl
    · exact ⟨header_mem (by simp), hc⟩
    · exact ⟨header_mem (by simp), by decide⟩
  | describe =>
    simp only [handle, onDescribe] at h
    split at h <;> cases h
  | play =>
    simp only [handle, Prod.mk.injEq] at h
    exact onPlay_clean h.2.2 hs hu hc
  | pause | getParameter | setParameter | teardown =>
    simp only [handle, Prod.mk.injEq] at h
    exact sessionAnswer_clean h.2.2 hs hc

end Conn
end DvrBridge
