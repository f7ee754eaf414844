import DvrBridge.RtspServed

/-! A client that goes away in the middle of a request: when `_read_request` acts on what has
arrived. -/
namespace DvrBridge.Rtsp
open PyText Search

/-- What `readline` returns one after the other, up to the end of the stream. -/
def linesOf : Bytes → List Bytes
  | [] => []
  | b :: bs =>
    if b = 10 then [10] :: linesOf bs
    else
      match linesOf bs with
      | [] => [[b]]
      | l :: ls => (b :: l) :: ls

/-- The handler that `_dispatch` calls. -/
def handlerFor (srv : Server) (line : Bytes) (headers : Headers) : Option Method :=
  match Conn.tokens line with
  | [method, _, _] => if Conn.gate srv method headers = .pass then handlerOf method else none
  | _ => none

/-- A handler runs on what has arrived. -/
def Dispatches (srv : Server) (c : Conn) (token : Str) (bs : Bytes) : Prop :=
  ∃ c' o m, c.step srv (.loop (inputOf bs token)) = some (c', o) ∧ .handler m ∈ o

/-- The lines so far are a head that a handler can run on: the first names a handler and is not too
long, the others are UTF-8 and within the limits, and they announce no body. -/
def Executes (srv : Server) (bs : Bytes) : Prop :=
  ∃ line ls hs, linesOf bs = line :: ls ∧
    (line.takeWhile (· ≠ 10)).length ≤ lineLimit + 1 ∧
    ls.foldlM addHeader [] = some hs ∧
    ls.flatten.length ≤ maxHeaderBytes ∧ (ls.length ≤ maxHeaders ∨ hs.length < maxHeaders) ∧
    (∀ v, hs.lookup "content-length".toList = some v → int v = some 0) ∧
    (handlerFor srv line hs).isSome = true

/-- The bytes of a request up to its blank line. -/
def RawRequest.head (r : RawRequest) : Bytes :=
  r.line ++ [10] ++ (r.headers.flatMap (· ++ [10]) ++ [13, 10])

/-! Lines. -/

theorem linesOf_line {l : Bytes} (h : (10 : UInt8) ∉ l) (rest : Bytes) :
    linesOf (l ++ [10] ++ rest) = (l ++ [10]) :: linesOf rest := by
  induction l with
  | nil => rfl
  | cons b l ih =>
    have hb : b ≠ 10 := fun hb => h (hb ▸ List.mem_cons_self ..)
    have hl := ih fun hm => h (List.mem_cons_of_mem b hm)
    simp only [List.cons_append, linesOf, if_neg hb, hl]

theorem linesOf_part {part : Bytes} (h : (10 : UInt8) ∉ part) :
    linesOf part = if part = [] then [] else [part] := by
  induction part with
  | nil => rfl
  | cons b part ih =>
    have hb : b ≠ 10 := fun hb => h (hb ▸ List.mem_cons_self ..)
    have hp := ih fun hm => h (List.mem_cons_of_mem b hm)
    rw [linesOf, if_neg hb, hp]
    split
    · rename_i hnil
      split at hnil
      · simp [*]
      · cases hnil
    · rename_i hcons
      split at hcons
      · cases hcons
      · cases hcons
        simp

theorem linesOf_lines {ls : List Bytes} (h : ∀ l ∈ ls, (10 : UInt8) ∉ l) {part : Bytes}
    (hp : (10 : UInt8) ∉ part) :
    linesOf (ls.flatMap (· ++ [10]) ++ part) =
      ls.map (· ++ [10]) ++ if part = [] then [] else [part] := by
  induction ls with
  | nil => exact linesOf_part hp
  | cons l ls ih =>
    rw [List.flatMap_cons, List.append_assoc, linesOf_line (h l (List.mem_cons_self ..)),
      ih fun x hx => h x (List.mem_cons_of_mem l hx)]
    rfl

/-- A prefix of lines and what follows them ends inside a line, or behind the lines. -/
theorem prefix_lines {p : Bytes} {ls : List Bytes} {rest : Bytes}
    (h : p <+: ls.flatMap (· ++ [10]) ++ rest) :
    (∃ pre l post part, ls = pre ++ l :: post ∧ part <+: l ∧
      p = pre.flatMap (· ++ [10]) ++ part) ∨
      ∃ q, p = ls.flatMap (· ++ [10]) ++ q ∧ q <+: rest := by
  induction ls generalizing p with
  | nil => exact .inr ⟨p, rfl, h⟩
  | cons l ls ih =>
    rw [List.flatMap_cons, List.append_assoc] at h
    rcases Nat.lt_or_ge l.length p.length with hlt | hge
    · have hpre : l ++ [10] <+: p :=
        List.prefix_of_prefix_length_le (List.prefix_append ..) h (by
          rw [List.length_append]
          exact hlt)
      obtain ⟨p', rfl⟩ := hpre
      rcases ih ((List.prefix_append_right_inj (l ++ [10])).mp h) with
        ⟨pre, l', post, part, rfl, hpart, rfl⟩ | ⟨q, rfl, hq⟩
      · exact .inl ⟨l :: pre, l', post, part, rfl, hpart, by simp⟩
      · exact .inr ⟨q, by simp, hq⟩
    · have hpart : p <+: l := by
        rw [List.append_assoc] at h
        exact List.prefix_of_prefix_length_le h (List.prefix_append ..) hge
      exact .inl ⟨[], l, ls, p, rfl, hpart, rfl⟩

/-! Headers. -/

theorem addHeaders_eq_foldlM (hs : Headers) (ls : List Bytes) :
    addHeaders hs ls = (ls.map (· ++ [10])).foldlM addHeader hs := by
  induction ls generalizing hs with
  | nil => rfl
  | cons l ls ih =>
    rw [addHeaders, List.map_cons, List.foldlM_cons]
    exact Option.bind_congr fun hs' _ => ih hs'

theorem addHeaders_length {hs hs' : Headers} {ls : List Bytes} (h : addHeaders hs ls = some hs') :
    hs'.length ≤ hs.length + ls.length := by
  induction ls generalizing hs with
  | nil =>
    cases h
    simp
  | cons l ls ih =>
    obtain ⟨hs₁, h₁, h⟩ := Option.bind_eq_some_iff.mp h
    have := addHeader_length h₁
    have := ih h
    rw [List.length_cons]
    omega

/-- The last line may lack its line feed; behind it the stream ends. -/
theorem readHeaders_part {rounds n : Nat} {hs : Headers} {part : Bytes}
    (hp : (10 : UInt8) ∉ part) (hl : part.length ≤ lineLimit) :
    readHeaders (rounds + 2) n hs part =
      if part = [] then .ok (hs, [])
      else if n + part.length > maxHeaderBytes ∨ hs.length ≥ maxHeaders then
        .error (.rtsp .headersTooLarge)
      else
        match addHeader hs part with
        | some hs => .ok (hs, [])
        | none => .error .valueError := by
  have hline : ∀ l : Bytes, (10 : UInt8) ∉ l → l.length ≤ lineLimit →
      readLine l = .ok (l, []) := by
    intro l hl hle
    simp only [readLine, find_symbol_none_iff.mpr hl, if_pos hle]
  have hend : readLine [] = .ok ([], []) := hline [] (by simp) (by simp)
  split
  · rename_i hnil
    subst hnil
    exact readHeaders_end hend (by simp)
  · rename_i hne
    have hnot : part ∉ ([[13, 10], [10], []] : List Bytes) := by
      intro hm
      simp only [List.mem_cons, List.not_mem_nil, or_false] at hm
      rcases hm with rfl | rfl | rfl <;> simp at hp hne
    split
    · rename_i hbound
      simp only [readHeaders, bind, StateT.bind, hline part hp hl, Except.bind, if_neg hnot,
        if_pos hbound]
      rfl
    · rename_i hbound
      rw [readHeaders_line (hline part hp hl) hnot hbound]
      cases addHeader hs part with
      | none => rfl
      | some hs' => exact readHeaders_end hend (by simp)

/-! Dispatch. -/

theorem handler_not_mem_sent {c c' : Conn} {handler : Option Str} {r : Response} {k : After}
    {o : List Effect} (h : Conn.Sent c handler r k c' o) (m : Method) : .handler m ∉ o := by
  cases h <;> simp

theorem handler_not_mem_stopped {c c' : Conn} {why : Leave} {o : List Effect}
    (h : Conn.Stopped c why c' o) (m : Method) : .handler m ∉ o := by
  cases h with
  | joins p _ _ => simp
  | tornDown _ => simp [Conn.not_mem_released (e := .handler m) (by simp)]
  | closes _ => simp [Conn.not_mem_released (e := .handler m) (by simp)]

/-- A handler runs exactly on a request that has one. -/
theorem dispatches_iff {srv : Server} {c : Conn} (hc : c.pc = .reading) (token : Str)
    (bs : Bytes) :
    Dispatches srv c token bs ↔ ∃ line hs body rest,
      readRequest bs = .ok (.request line hs body, rest) ∧
        (handlerFor srv line hs).isSome = true := by
  constructor
  · rintro ⟨c', o, m, hs, hm⟩
    have hstep := Conn.loopStep_inv hs
    unfold inputOf at hstep
    split at hstep
    · rename_i res rest hread
      cases res with
      | skipped =>
        cases hstep with
        | skipped _ => cases hm
        | quits hp _ _ => simp [hc] at hp
      | request line headers body =>
        refine ⟨line, headers, body, rest, hread, ?_⟩
        cases hstep with
        | handles _ ht hg hh _ => simp [handlerFor, ht, hg, hh]
        | badLine _ _ hsent => exact absurd hm (handler_not_mem_sent hsent m)
        | unauthorized _ _ _ hsent => exact absurd hm (handler_not_mem_sent hsent m)
        | unknown _ _ _ _ hsent => exact absurd hm (handler_not_mem_sent hsent m)
        | authCrashes _ _ _ hstop =>
          have := handler_not_mem_stopped hstop m
          simp [this] at hm
        | quits hp _ _ => simp [hc] at hp
    · rename_i e _
      cases e with
      | rtsp e =>
        cases hstep with
        | malformed _ _ hsent => exact absurd hm (handler_not_mem_sent hsent m)
        | quits hp _ _ => simp [hc] at hp
      | incompleteRead =>
        cases hstep with
        | gone _ hstop => exact absurd hm (handler_not_mem_stopped hstop m)
        | quits hp _ _ => simp [hc] at hp
      | valueError =>
        cases hstep with
        | gone _ hstop => exact absurd hm (handler_not_mem_stopped hstop m)
        | quits hp _ _ => simp [hc] at hp
  · rintro ⟨line, hs, body, rest, hread, hh⟩
    obtain ⟨m, hm⟩ := Option.isSome_iff_exists.mp hh
    refine ⟨(c.dispatch srv line hs token).1, (c.dispatch srv line hs token).2, m, ?_, ?_⟩
    · simp [Conn.step, Conn.loopStep, hc, inputOf, hread, ReadResult.input]
    · unfold handlerFor at hm
      split at hm
      · rename_i method url v ht
        obtain ⟨hg, hm⟩ := Option.ite_none_right_eq_some.mp hm
        have ht' : split (strip (latin1 line)) = [method, url, v] := ht
        simp [Conn.dispatch, ht', hg, hm, Conn.runHandler]
      · cases hm

/-! The three places of a cut: in the request line, in the header lines, in the body. -/

/-- The rest of a line that the stream ends in. -/
theorem readLine_part {l : Bytes} (h : (10 : UInt8) ∉ l) :
    readLine l = if l.length ≤ lineLimit then .ok (l, []) else .error .valueError := by
  simp only [readLine, find_symbol_none_iff.mpr h]

/-- At the end of the stream there is no body but the empty one. -/
theorem readBody_nil_iff {hs : Headers} {body rest : Bytes} :
    readBody hs [] = .ok (body, rest) ↔
      (∀ v, hs.lookup "content-length".toList = some v → int v = some 0) ∧
        body = [] ∧ rest = [] := by
  unfold readBody
  cases hs.lookup "content-length".toList with
  | none =>
    refine pure_eq_ok_iff.trans ?_
    simp [eq_comm]
  | some v =>
    cases hv : int v with
    | none => simp [throw, throwThe, MonadExceptOf.throw, StateT.lift, hv]
    | some n =>
      by_cases hn : n = 0
      · simp [hn, hv, readExactly, eq_comm]
      · have hne : ¬ ∀ w, some v = some w → int w = some 0 := fun h => by
          have := h v rfl
          rw [hv, Option.some.injEq] at this
          exact hn this
        simp only [hne, false_and, iff_false, hv]
        split
        · have hpos : n.toNat ≠ 0 := by omega
          simp [readExactly, hpos]
        · simp [throw, throwThe, MonadExceptOf.throw, StateT.lift]

/-- A request comes from its line, its headers and its body. -/
theorem readText_request_iff {first bs line body rest : Bytes} {hs : Headers} :
    readText first bs = .ok (.request line hs body, rest) ↔
      ∃ more t u, readLine bs = .ok (more, t) ∧ (first ++ more).all isBlank = false ∧
        readHeaders (maxHeaderBytes + 1) 0 [] t = .ok (hs, u) ∧ readBody hs u = .ok (body, rest) ∧
        line = first ++ more := by
  constructor
  · intro h
    obtain ⟨more, t, hline, h⟩ := bind_eq_ok_iff.mp h
    split at h
    · cases h
    · rename_i hblank
      obtain ⟨headers, u, hheaders, h⟩ := bind_eq_ok_iff.mp h
      obtain ⟨b, w, hbody, h⟩ := bind_eq_ok_iff.mp h
      obtain ⟨h, rfl⟩ := pure_eq_ok_iff.mp h
      cases h
      exact ⟨more, t, u, hline, by simpa using hblank, hheaders, hbody, rfl⟩
  · rintro ⟨more, t, u, hline, hblank, hheaders, hbody, rfl⟩
    refine bind_eq_ok_iff.mpr ⟨more, t, hline, ?_⟩
    rw [if_neg (by simp [hblank])]
    refine bind_eq_ok_iff.mpr ⟨hs, u, hheaders, ?_⟩
    exact bind_eq_ok_iff.mpr ⟨body, rest, hbody, pure_eq_ok_iff.mpr ⟨rfl, rfl⟩⟩

/-- The lines of a head that is cut off in a header line or in the blank line. -/
def cutLines (ls : List Bytes) (part : Bytes) : List Bytes :=
  ls.map (· ++ [10]) ++ if part = [] then [] else [part]

/-- The limits are checked before the last line is added. -/
theorem limits_last_iff {hs₁ hs : Headers} {part : Bytes} {n k : Nat} (hk : hs₁.length ≤ k)
    (hlast : k < maxHeaders ∨ ∀ hs, addHeader hs part = some hs) :
    ¬ (n > maxHeaderBytes ∨ hs₁.length ≥ maxHeaders) ∧ addHeader hs₁ part = some hs ↔
      addHeader hs₁ part = some hs ∧ n ≤ maxHeaderBytes ∧
        (k + 1 ≤ maxHeaders ∨ hs.length < maxHeaders) := by
  constructor
  · rintro ⟨hno, hadd⟩
    refine ⟨hadd, by omega, ?_⟩
    rcases hlast with hlt | hsame
    · exact .inl (by omega)
    · rw [hsame hs₁, Option.some.injEq] at hadd
      subst hadd
      exact .inr (by omega)
  · rintro ⟨hadd, hle, hcount⟩
    have hlt : hs₁.length < maxHeaders := by
      rcases hlast with hlt | hsame
      · omega
      · rw [hsame hs₁, Option.some.injEq] at hadd
        subst hadd
        omega
    exact ⟨not_or.mpr ⟨Nat.not_lt.mpr hle, Nat.not_le.mpr hlt⟩, hadd⟩

/-- Header lines that the stream ends in are all read if they are within the limits; the part of
the last that has arrived counts as a line. -/
theorem readHeaders_cut_iff {ls : List Bytes} {part : Bytes} (hl : ∀ l ∈ ls, HeaderLine l)
    (hp : (10 : UInt8) ∉ part) (hpl : part.length ≤ lineLimit)
    (hn : (ls.flatMap (· ++ [10])).length ≤ maxHeaderBytes) (hc : ls.length ≤ maxHeaders)
    (hlast : ls.length < maxHeaders ∨ ∀ hs, addHeader hs part = some hs) (hs : Headers)
    (rest : Bytes) :
    readHeaders (maxHeaderBytes + 1) 0 [] (ls.flatMap (· ++ [10]) ++ part) = .ok (hs, rest) ↔
      ((cutLines ls part).foldlM addHeader [] = some hs ∧
        (cutLines ls part).flatten.length ≤ maxHeaderBytes ∧
        ((cutLines ls part).length ≤ maxHeaders ∨ hs.length < maxHeaders)) ∧ rest = [] := by
  have hrounds : maxHeaderBytes + 1 = maxHeaderBytes - 1 - ls.length + 2 + ls.length := by
    have : maxHeaders + 1 ≤ maxHeaderBytes := by decide
    omega
  have hflat : (ls.map (· ++ [10])).flatten = ls.flatMap (· ++ [10]) := (List.flatMap_def ..).symm
  rw [hrounds, readHeaders_append ls hl (by omega) (by simpa using hc), cutLines,
    List.foldlM_append, ← addHeaders_eq_foldlM, List.flatten_append, List.length_append, hflat,
    List.length_append, List.length_map]
  cases ha : addHeaders [] ls with
  | none => simp
  | some hs₁ =>
    have hlen := addHeaders_length ha
    simp only [List.length_nil, Nat.zero_add] at hlen
    simp only [readHeaders_part hp hpl]
    by_cases hnil : part = []
    · simp only [if_pos hnil, Except.ok.injEq, Prod.mk.injEq]
      constructor
      · rintro ⟨rfl, rfl⟩
        exact ⟨⟨rfl, by simpa using hn, .inl (by simpa using hc)⟩, rfl⟩
      · rintro ⟨⟨hfold, -⟩, rfl⟩
        cases hfold
        exact ⟨rfl, rfl⟩
    · simp only [if_neg hnil, List.flatten_cons, List.flatten_nil, List.append_nil,
        List.length_singleton, Nat.zero_add]
      have hone : [part].foldlM addHeader hs₁ = addHeader hs₁ part := by
        simp
      change _ ↔ ([part].foldlM addHeader hs₁ = some hs ∧ _) ∧ _
      rw [hone]
      rw [← limits_last_iff hlen hlast]
      split
      · rename_i hover
        simp only [hover, not_true_eq_false, false_and, iff_false]
        simp
      · rename_i hwithin
        simp only [hwithin, not_false_eq_true, true_and]
        cases addHeader hs₁ part with
        | none => simp
        | some hs₂ => simp [eq_comm]

theorem takeWhile_line {line : Bytes} (h : (10 : UInt8) ∉ line) (t : Bytes) :
    (line ++ t).takeWhile (· ≠ 10) = line ++ t.takeWhile (· ≠ 10) :=
  List.takeWhile_append_of_pos fun x hx => by
    simpa using fun hx' : x = 10 => h (hx' ▸ hx)

/-- A blank line names no handler. -/
theorem handlerFor_blank {srv : Server} {line : Bytes} {hs : Headers}
    (h : line.all isBlank = true) : handlerFor srv line hs = none := by
  rw [handlerFor, tokens_blank h]

namespace RawRequest
variable {srv : Server} {c : Conn} {token : Str} (r : RawRequest)

/-- The stream ends in the request line. -/
theorem dispatches_line_iff (hc : c.pc = .reading) {p : Bytes} (hp : p <+: r.line) :
    Dispatches srv c token p ↔ Executes srv p := by
  obtain ⟨b, t, hbt, hb, ht⟩ := r.exists_cons
  rw [dispatches_iff hc]
  rw [hbt] at hp
  cases p with
  | nil =>
    constructor
    · rintro ⟨line, hs, body, rest, hread, -⟩
      cases hread
    · rintro ⟨line, ls, hs, hlines, -⟩
      cases hlines
  | cons b' p =>
    obtain ⟨rfl, hpt⟩ := List.cons_prefix_cons.mp hp
    have hlf : (10 : UInt8) ∉ p := fun h => ht (hpt.subset h)
    have hb10 : b' ≠ 10 := by
      rintro rfl
      exact r.line_ok (hbt ▸ List.mem_cons_self ..)
    have hcons : (10 : UInt8) ∉ b' :: p := by
      simp [hlf, Ne.symm hb10]
    have hlines : linesOf (b' :: p) = [b' :: p] := by
      rw [linesOf_part hcons, if_neg (by simp)]
    have htake : (b' :: p).takeWhile (· ≠ 10) = b' :: p := by
      simpa using takeWhile_line hcons []
    have hend : readHeaders (maxHeaderBytes + 1) 0 [] [] = .ok ([], []) :=
      readHeaders_end (readLine_part (l := []) (by simp)) (by simp)
    rw [readRequest_cons hb]
    constructor
    · rintro ⟨line, hs, body, rest, hread, hh⟩
      obtain ⟨more, t', u, hline, hblank, hheaders, hbody, rfl⟩ := readText_request_iff.mp hread
      rw [readLine_part hlf] at hline
      split at hline
      · rename_i hlen
        cases hline
        rw [hend] at hheaders
        cases hheaders
        exact ⟨_, [], [], hlines, by rw [htake]; simpa using hlen, rfl, by simp, .inl (by simp),
          by simp, hh⟩
      · cases hline
    · rintro ⟨line, ls, hs, hl, hlen, hfold, -, -, hcl, hh⟩
      rw [hlines] at hl
      cases hl
      cases hfold
      rw [htake] at hlen
      refine ⟨_, _, _, _, readText_request_iff.mpr ⟨p, [], [], ?_, ?_, hend,
        readBody_nil_iff.mpr ⟨by simp, rfl, rfl⟩, rfl⟩, hh⟩
      · rw [readLine_part hlf, if_pos (by simpa using hlen)]
      · rw [Bool.eq_false_iff]
        intro hblank
        have hnone : handlerFor srv (b' :: p) [] = none := handlerFor_blank hblank
        rw [hnone] at hh
        cases hh

/-- Where a head ends that is cut off behind its first line. -/
structure CutAt (pre : List Bytes) (part : Bytes) : Prop where
  lines : ∀ l ∈ pre, HeaderLine l
  part_line : (10 : UInt8) ∉ part
  part_short : part.length ≤ lineLimit
  size : (pre.flatMap (· ++ [10])).length ≤ maxHeaderBytes
  count : pre.length ≤ maxHeaders
  last : pre.length < maxHeaders ∨ ∀ hs, addHeader hs part = some hs

theorem cutAt {pre post : List Bytes} {l part : Bytes}
    (hls : r.headers ++ [[13]] = pre ++ l :: post) (hpart : part <+: l) : CutAt pre part := by
  have hmax : maxHeaderBytes ≤ lineLimit := by decide
  have hsize := r.size
  have hcount := r.count
  rcases List.eq_nil_or_concat post with rfl | ⟨post, x, rfl⟩
  · -- in the blank line
    obtain ⟨rfl, hl⟩ := List.append_inj' hls rfl
    cases hl
    have hpart' : part = [] ∨ part = [13] := by
      rcases List.prefix_cons_iff.mp hpart with rfl | ⟨t, rfl, ht⟩
      · exact .inl rfl
      · exact .inr (by rw [List.prefix_nil.mp ht])
    refine ⟨r.headers_ok, ?_, ?_, hsize, hcount, .inr fun hs => ?_⟩
    · rcases hpart' with rfl | rfl <;> decide
    · rcases hpart' with rfl | rfl <;> decide
    · rcases hpart' with rfl | rfl <;> rfl
  · have hheaders : r.headers = pre ++ l :: post := by
      have hassoc : pre ++ l :: (post ++ [x]) = (pre ++ l :: post) ++ [x] := by simp
      rw [List.concat_eq_append, hassoc] at hls
      exact (List.append_inj' hls rfl).1
    have hok : ∀ y ∈ pre ++ l :: post, HeaderLine y := hheaders ▸ r.headers_ok
    rw [hheaders, List.flatMap_append, List.flatMap_cons, List.length_append, List.length_append,
      List.length_append] at hsize
    rw [hheaders, List.length_append, List.length_cons] at hcount
    have := hpart.length_le
    refine ⟨fun y hy => hok y (List.mem_append_left _ hy), ?_, by omega, by omega, by omega,
      .inl (by omega)⟩
    exact fun h => (hok l (by simp)).line (hpart.subset h)

/-- The stream ends in a header line, or before the end of the blank line. -/
theorem dispatches_headers_iff (hc : c.pc = .reading) {pre post : List Bytes} {l part : Bytes}
    (hls : r.headers ++ [[13]] = pre ++ l :: post) (hpart : part <+: l) :
    Dispatches srv c token (r.line ++ [10] ++ (pre.flatMap (· ++ [10]) ++ part)) ↔
      Executes srv (r.line ++ [10] ++ (pre.flatMap (· ++ [10]) ++ part)) := by
  obtain ⟨b, t, hbt, hb, ht⟩ := r.exists_cons
  have hcut := r.cutAt hls hpart
  have hlines : linesOf (r.line ++ [10] ++ (pre.flatMap (· ++ [10]) ++ part)) =
      (r.line ++ [10]) :: cutLines pre part := by
    rw [linesOf_line r.line_ok, linesOf_lines (fun x hx => (hcut.lines x hx).line) hcut.part_line]
    rfl
  have htake : (r.line ++ [10]).takeWhile (· ≠ 10) = r.line := by
    simpa using takeWhile_line r.line_ok [10]
  have hread : readRequest (r.line ++ [10] ++ (pre.flatMap (· ++ [10]) ++ part)) =
      readText [b] (t ++ [10] ++ (pre.flatMap (· ++ [10]) ++ part)) := by
    rw [hbt]
    exact readRequest_cons hb _
  have hline := readLine_append ht (pre.flatMap (· ++ [10]) ++ part)
  have hheaders := readHeaders_cut_iff hcut.lines hcut.part_line hcut.part_short hcut.size
    hcut.count hcut.last
  rw [dispatches_iff hc, hread]
  constructor
  · rintro ⟨line, hs, body, rest, h, hh⟩
    obtain ⟨more, t', u, hmore, hblank, hhs, hbody, rfl⟩ := readText_request_iff.mp h
    rw [hline] at hmore
    split at hmore
    · rename_i hlen
      cases hmore
      obtain ⟨⟨hfold, hsize, hcount⟩, rfl⟩ := (hheaders _ _).mp hhs
      obtain ⟨hcl, -, -⟩ := readBody_nil_iff.mp hbody
      have hb' : [b] ++ (t ++ [10]) = r.line ++ [10] := by
        rw [hbt]
        rfl
      refine ⟨_, _, hs, hlines, ?_, hfold, hsize, hcount, hcl, hb' ▸ hh⟩
      rw [htake, hbt]
      simpa using hlen
    · cases hmore
  · rintro ⟨line, ls, hs, hl, hlen, hfold, hsize, hcount, hcl, hh⟩
    rw [hlines] at hl
    cases hl
    rw [htake, hbt, List.length_cons] at hlen
    refine ⟨_, hs, [], [], readText_request_iff.mpr ⟨t ++ [10], _, [], ?_, ?_,
      (hheaders _ _).mpr ⟨⟨hfold, hsize, hcount⟩, rfl⟩, readBody_nil_iff.mpr ⟨hcl, rfl, rfl⟩, ?_⟩, hh⟩
    · rw [hline, if_pos (by omega)]
    · have := r.line_blank
      rwa [hbt] at this
    · rw [hbt]
      rfl

/-- The stream ends in the body: the read of the body fails. -/
theorem not_dispatches_body (hc : c.pc = .reading) {q : Bytes} (hq : q <+: r.body)
    (hne : q ≠ r.body) : ¬ Dispatches srv c token (r.head ++ q) := by
  obtain ⟨b, t, hbt, hb, ht⟩ := r.exists_cons
  have hlt : q.length < r.body.length := by
    refine Nat.lt_of_le_of_ne hq.length_le fun h => hne (hq.eq_of_length h)
  have hread : readRequest (r.head ++ q) =
      readText [b] (t ++ [10] ++ (r.headers.flatMap (· ++ [10]) ++ ([13, 10] ++ q))) := by
    have hhead : r.head ++ q =
        b :: (t ++ [10] ++ (r.headers.flatMap (· ++ [10]) ++ ([13, 10] ++ q))) := by
      simp [head, hbt]
    rw [hhead]
    exact readRequest_cons hb _
  have hrounds : r.headers.length < maxHeaderBytes + 1 := by
    have := r.count
    have : maxHeaders ≤ maxHeaderBytes := by decide
    omega
  rw [dispatches_iff hc, hread]
  rintro ⟨line, hs, body, rest, h, -⟩
  obtain ⟨more, t', u, hmore, -, hhs, hbody, -⟩ := readText_request_iff.mp h
  rw [readLine_append ht] at hmore
  split at hmore
  · cases hmore
    rw [readHeaders_lines r.headers r.headers_ok hrounds (by simpa using r.size)
      (by simpa using r.count)] at hhs
    cases ha : addHeaders [] r.headers with
    | none =>
      rw [ha] at hhs
      cases hhs
    | some hs' =>
      rw [ha] at hhs
      cases hhs
      have hann := r.announced hs ha
      have hle := r.body_le
      unfold readBody at hbody
      cases hv : hs.lookup "content-length".toList with
      | none =>
        rw [hv] at hann
        rw [hann] at hlt
        cases hlt
      | some v =>
        rw [hv] at hann
        simp only [hv, hann] at hbody
        rw [if_pos ⟨by omega, by simp only [maxBody] at hle ⊢; omega⟩, Int.toNat_natCast,
          readExactly, if_neg (by omega)] at hbody
        cases hbody
  · cases hmore

end RawRequest

/-- Of a request that is cut off anywhere by the end of the stream, no handler runs exactly if the
cut is behind the blank line, or what has arrived of the head cannot be executed as it stands. -/
theorem cut_off_iff (srv : Server) (c : Conn) (hc : c.pc = .reading) (r : RawRequest) (token : Str)
    (p : Bytes) (hp : p <+: r.bytes) (hne : p ≠ r.bytes) :
    ¬ Dispatches srv c token p ↔ r.head <+: p ∨ ¬ Executes srv p := by
  have hbytes : r.bytes =
      (r.line :: (r.headers ++ [[13]])).flatMap (· ++ [10]) ++ r.body := by
    simp [RawRequest.bytes]
  have hhead : r.head = (r.line :: (r.headers ++ [[13]])).flatMap (· ++ [10]) := by
    simp [RawRequest.head]
  rw [hbytes] at hp
  rcases prefix_lines hp with ⟨pre, l, post, part, hls, hpart, rfl⟩ | ⟨q, rfl, hq⟩
  · have hshort : ¬ r.head <+: pre.flatMap (· ++ [10]) ++ part := by
      intro h
      have hle : ((pre ++ l :: post).flatMap (· ++ [10])).length ≤
          (pre.flatMap (· ++ [10]) ++ part).length := by
        rw [← hls, ← hhead]
        exact h.length_le
      have := hpart.length_le
      simp only [List.flatMap_append, List.flatMap_cons, List.length_append,
        List.length_singleton] at hle
      omega
    rw [or_iff_right hshort, not_iff_not]
    cases pre with
    | nil =>
      rw [List.nil_append, List.cons.injEq] at hls
      rw [List.flatMap_nil, List.nil_append]
      exact r.dispatches_line_iff hc (hls.1 ▸ hpart)
    | cons x pre =>
      rw [List.cons_append, List.cons.injEq] at hls
      obtain ⟨rfl, hls⟩ := hls
      rw [List.flatMap_cons, List.append_assoc]
      exact r.dispatches_headers_iff hc hls hpart
  · rw [← hhead]
    have hq' : q ≠ r.body := by
      rintro rfl
      exact hne hbytes.symm
    exact iff_of_true (r.not_dispatches_body hc hq hq') (.inl (List.prefix_append ..))

def teardownRequest : RawRequest :=
  bareRequest (encode "TEARDOWN rtsp://host/cam RTSP/1.0\r".toList) "TEARDOWN".toList
    "rtsp://host/cam".toList (by decide +kernel) (by decide +kernel) (by decide +kernel)

/-- Cut off behind the first letter of its version, or behind the second word. -/
def tornLine : Bytes := encode "TEARDOWN rtsp://host/cam R".toList
def twoWords : Bytes := encode "TEARDOWN rtsp://host/cam".toList

theorem not_cut_off_refused : ¬ ∀ (srv : Server) (c : Conn), c.pc = .reading →
    ∀ (r : RawRequest) (token : Str) (p : Bytes), p <+: r.bytes → p ≠ r.bytes →
      ¬ Dispatches srv c token p := by
  intro h
  have hstep : ((Conn.fresh none 1).step bracketServer (.loop (inputOf tornLine []))).map
      (fun q => decide (.handler .teardown ∈ q.2)) = some true := by
    decide +kernel
  obtain ⟨⟨c', o⟩, hs, hm⟩ := Option.map_eq_some_iff.mp hstep
  exact h bracketServer (Conn.fresh none 1) rfl teardownRequest [] tornLine (by decide +kernel)
    (by decide +kernel) ⟨c', o, .teardown, hs, of_decide_eq_true hm⟩

theorem cut_off_twoWords : ¬ Dispatches bracketServer (Conn.fresh none 1) [] twoWords := by
  refine (cut_off_iff bracketServer (Conn.fresh none 1) rfl teardownRequest [] twoWords
    (by decide +kernel) (by decide +kernel)).mpr (.inr ?_)
  rintro ⟨line, ls, hs, hlines, -, hfold, -, -, -, hh⟩
  have htwo : linesOf twoWords = [twoWords] := by decide +kernel
  rw [htwo] at hlines
  cases hlines
  cases hfold
  have hnone : handlerFor bracketServer twoWords [] = none := by decide +kernel
  rw [hnone] at hh
  cases hh

end DvrBridge.Rtsp
