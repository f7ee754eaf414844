import DvrBridge.Config
import DvrBridge.RtspSteps
import DvrBridge.Unquote
import DvrBridge.UrlParse

/-! The stream that a request's URL names, and the URL that a client forms from the answer to a
DESCRIBE. -/
namespace DvrBridge.RtspUrl
open PyText UrlParse

/-- `unquote(urlparse(url).path)` -/
def urlPath (valid : Str → Bool) (url : Str) : Option Str :=
  (urlparse valid url).map fun r => unquote r.path

def track : Str := "/track0".toList

/-- The path as `_stream_for` looks it up. -/
def trackless (p : Str) : Str :=
  let path := stripChar '/' p
  if track.isSuffixOf path then path.take (path.length - track.length) else path

theorem streamFor_eq (srv : Server) (url : Str) :
    srv.streamFor url =
      match srv.urlPath url with
      | none => .valueError
      | some p => if trackless p ∈ srv.hub then .found (trackless p) else .notFound := rfl

/-! The names in the hub. -/

/-- The server of a hub. -/
def server (valid : Str → Bool) (auth : Option (Str × Str)) (hub : List StreamConfig) : Server :=
  { auth := auth, hub := hub.map (·.name), urlPath := urlPath valid }

/-- `f"{name}/ch{ch}"` -/
theorem slash_mem_name {py : Builtins} {cfg : Config} {hub : List StreamConfig}
    (h : buildHub py cfg = some hub) {name : Str} (hname : name ∈ hub.map (·.name)) :
    '/' ∈ name := by
  obtain ⟨c, hc, rfl⟩ := List.mem_map.mp hname
  obtain ⟨dev, chs, ch, -, -, -, hs⟩ := (mem_buildHub h).2 c hc
  obtain ⟨host, -, hs⟩ := Option.bind_eq_some_iff.mp hs
  obtain ⟨channel, -, hs⟩ := Option.bind_eq_some_iff.mp hs
  obtain ⟨port, -, hs⟩ := Option.bind_eq_some_iff.mp hs
  obtain ⟨name, -, hs⟩ := Option.bind_eq_some_iff.mp hs
  obtain ⟨linger, -, hs⟩ := Option.bind_eq_some_iff.mp hs
  cases hs
  simp

/-! Slashes at the ends of a path, and the track behind it. -/

theorem rdropWhile_append_slashes (l : Str) (k : Nat) :
    (l ++ List.replicate k '/').rdropWhile (· = '/') = l.rdropWhile (· = '/') := by
  induction k with
  | zero => simp
  | succ k ih =>
    rw [List.replicate_succ', ← List.append_assoc, List.rdropWhile_concat_pos _ _ _ (by simp), ih]

theorem dropWhile_slash_append {q : Str} (hq : q.dropWhile (· = '/') ≠ []) (x : Str) :
    (q ++ x).dropWhile (· = '/') = q.dropWhile (· = '/') ++ x := by
  rw [List.dropWhile_append, if_neg (by simpa using hq)]

/-- A path that is looked up with a slash in it is not made of slashes only. -/
theorem dropWhile_ne_nil {q : Str} (h : '/' ∈ trackless q) : q.dropWhile (· = '/') ≠ [] := by
  intro hq
  rw [trackless, stripChar, hq] at h
  simp at h

theorem trackless_append_slashes (q : Str) (k : Nat) :
    trackless (q ++ List.replicate k '/') = trackless q := by
  have hstrip : stripChar '/' (q ++ List.replicate k '/') = stripChar '/' q := by
    unfold stripChar
    by_cases hq : q.dropWhile (· = '/') = []
    · have hrep : (List.replicate k '/').dropWhile (· = '/') = [] := by simp
      rw [List.dropWhile_append, hq, hrep]
      rfl
    · rw [dropWhile_slash_append hq, rdropWhile_append_slashes]
  rw [trackless, hstrip, trackless]

theorem trackless_append_track {q : Str} (hq : q.dropWhile (· = '/') ≠ []) :
    trackless (q ++ track) = q.dropWhile (· = '/') := by
  have hlast (l : Str) : (l ++ track).rdropWhile (· = '/') = l ++ track := by
    have h0 : l ++ track = l ++ "/track".toList ++ ['0'] := by
      rw [List.append_assoc]
      rfl
    rw [h0, List.rdropWhile_concat_neg _ _ _ (by simp)]
  have hstrip : stripChar '/' (q ++ track) = q.dropWhile (· = '/') ++ track := by
    rw [stripChar, dropWhile_slash_append hq, hlast]
  rw [trackless, hstrip, if_pos (List.isSuffixOf_iff_suffix.mpr (List.suffix_append ..)),
    List.length_append, Nat.add_sub_cancel, List.take_left]

theorem trackless_length_le (q : Str) : (trackless q).length ≤ (stripChar '/' q).length := by
  unfold trackless
  simp only
  split
  · rw [List.length_take]
    omega
  · exact Nat.le_refl _

theorem stripChar_length_le (q : Str) :
    (stripChar '/' q).length ≤ (q.dropWhile (· = '/')).length :=
  (List.rdropWhile_prefix _ _).length_le

/-- A path whose look-up is as long as what is behind its leading slashes has nothing to strip. -/
theorem trackless_eq_iff {q : Str} (hq : q.dropWhile (· = '/') ≠ []) :
    trackless q = q.dropWhile (· = '/') ↔
      q.getLast? ≠ some '/' ∧ ¬ track <:+ q.dropWhile (· = '/') := by
  have hlast : q.getLast? = (q.dropWhile (· = '/')).getLast? := by
    conv_lhs => rw [← List.takeWhile_append_dropWhile (p := (· = '/')) (l := q)]
    rw [List.getLast?_append_of_ne_nil _ hq]
  have hself : stripChar '/' q = q.dropWhile (· = '/') ↔ q.getLast? ≠ some '/' := by
    rw [hlast, stripChar, List.rdropWhile_eq_self_iff]
    simp [List.getLast?_eq_some_getLast hq, hq]
  constructor
  · intro h
    have hle : (q.dropWhile (· = '/')).length ≤ (stripChar '/' q).length :=
      (congrArg List.length h.symm).trans_le (trackless_length_le q)
    have hstrip : stripChar '/' q = q.dropWhile (· = '/') :=
      (List.rdropWhile_prefix _ _).eq_of_length (Nat.le_antisymm (stripChar_length_le q) hle)
    refine ⟨hself.mp hstrip, fun hs => ?_⟩
    rw [trackless, hstrip, if_pos (List.isSuffixOf_iff_suffix.mpr hs)] at h
    have hlen := congrArg List.length h
    have hpos := hs.length_le
    rw [List.length_take] at hlen
    have h7 : track.length = 7 := rfl
    omega
  · rintro ⟨hl, hs⟩
    rw [trackless, hself.mpr hl, if_neg (mt List.isSuffixOf_iff_suffix.mp hs)]

/-- The track's path is looked up as the stream's exactly if the latter ends neither in a slash nor
in a track. -/
theorem trackless_track_iff {q : Str} (h : '/' ∈ trackless q) :
    trackless (q ++ track) = trackless q ↔ q.getLast? ≠ some '/' ∧ ¬ track <:+ q := by
  have hq := dropWhile_ne_nil h
  have hdrop : q.dropWhile (· = '/') <:+ q := List.dropWhile_suffix _
  rw [trackless_append_track hq, eq_comm, trackless_eq_iff hq]
  refine and_congr_right fun hl => not_congr ⟨fun hs => hs.trans hdrop, fun hs => ?_⟩
  -- what is left of the path has a slash, so the track is not longer
  by_contra hn
  have hself := (trackless_eq_iff hq).mpr ⟨hl, hn⟩
  rcases Nat.le_total track.length (q.dropWhile (· = '/')).length with hle | hle
  · exact hn (List.suffix_of_suffix_length_le hs hdrop hle)
  · rcases List.suffix_cons_iff.mp (List.suffix_of_suffix_length_le hdrop hs hle) with he | hsub
    · exact hn (he ▸ List.suffix_refl _)
    · rw [hself] at h
      exact absurd (hsub.mem h) (by decide)

/-! The URL of the track. -/

/-- `Content-Base` -/
def contentBase (url : Str) : Str := rstripChar '/' url ++ ['/']

/-- `a=control` of the session description -/
def controlName : Str := "track0".toList

def trackUrl (url : Str) : Str := contentBase url ++ controlName

/-- What a path needs for the track behind it to be looked up as the same stream. -/
structure PlainPath (r : SplitResult) : Prop where
  noParams : usesParams.contains r.scheme → ';' ∉ lastSegment r.path
  noSlash : (unquote (rstripChar '/' r.path)).getLast? ≠ some '/'
  noTrack : ¬ track <:+ unquote (rstripChar '/' r.path)

/-- The URL has a query or a fragment, in which the track ends up, or a plain path. -/
def TrackFits (valid : Str → Bool) (url : Str) : Prop :=
  '?' ∈ url ∨ '#' ∈ url ∨ ∃ r, urlsplit valid url = some r ∧ PlainPath r

theorem trackUrl_eq (url : Str) : trackUrl url = rstripChar '/' url ++ track := by
  rw [trackUrl, contentBase, List.append_assoc]
  rfl

theorem tail_slashes (k : Nat) : Tail (List.replicate k '/') where
  slash c h := by
    cases k with
    | zero => cases h
    | succ k => exact (Option.some.inj h).symm
  noColon h := absurd (List.eq_of_mem_replicate h) (by decide)
  noQuery h := absurd (List.eq_of_mem_replicate h) (by decide)
  noFragment h := absurd (List.eq_of_mem_replicate h) (by decide)
  visible c h := by
    rw [List.eq_of_mem_replicate h]
    decide

theorem tail_track : Tail track where
  slash c h := (Option.some.inj h).symm
  noColon := by decide
  noQuery := by decide
  noFragment := by decide
  visible c h := by
    have hall : (track.all fun c => decide (0x20 < c.toNat)) = true := by decide
    exact of_decide_eq_true (List.all_eq_true.mp hall c h)

theorem exists_slashes (url : Str) : ∃ k, url = rstripChar '/' url ++ List.replicate k '/' := by
  refine ⟨(url.rtakeWhile (· = '/')).length, ?_⟩
  have hall : url.rtakeWhile (· = '/') = List.replicate (url.rtakeWhile (· = '/')).length '/' :=
    List.eq_replicate_iff.mpr ⟨rfl, fun c hc => by simpa using List.mem_rtakeWhile_imp hc⟩
  rw [← hall]
  exact List.rdropWhile_append_rtakeWhile.symm

theorem getLast?_ne_of_suffix {s w : Str} {a : Char} (h : s <:+ w) (hw : w.getLast? ≠ some a) :
    s.getLast? ≠ some a := by
  obtain ⟨u, rfl⟩ := h
  cases s with
  | nil => simp
  | cons c s => rwa [List.getLast?_append_of_ne_nil _ (List.cons_ne_nil c s)] at hw

theorem rstripChar_getLast? (url : Str) : (rstripChar '/' url).getLast? ≠ some '/' := by
  intro h
  have hne : rstripChar '/' url ≠ [] := by
    rintro h0
    rw [h0] at h
    cases h
  have hl := List.rdropWhile_last_not (· = '/') url hne
  rw [List.getLast?_eq_some_getLast hne, Option.some.injEq] at h
  exact hl (decide_eq_true h)

theorem rstripChar_append_slashes {t : Str} (h : t.getLast? ≠ some '/') (k : Nat) :
    rstripChar '/' (t ++ List.replicate k '/') = t := by
  rw [rstripChar, rdropWhile_append_slashes, List.rdropWhile_eq_self_iff]
  intro hne ht
  rw [List.getLast?_eq_some_getLast hne] at h
  exact h (congrArg some (of_decide_eq_true ht))

/-! The URL of a request, without its slashes at the end and with a tail behind it. -/

section tail
variable {w x : Str} (hspace : ∀ c ∈ w, isSpace c = false) (hlast : w.getLast? ≠ some '/')

include hspace in
theorem clean_suffix : clean w <:+ w := by
  have hkeep : clean w = w.dropWhile (·.toNat ≤ 0x20) := by
    refine List.filter_eq_self.mpr fun c hc => ?_
    have hc' := hspace c ((List.dropWhile_suffix _).mem hc)
    have hne {d : Char} (hd : isSpace d = true) : c ≠ d := fun h => by
      rw [h, hd] at hc'
      cases hc'
    simp [hne (d := '\t') (by decide), hne (d := '\r') (by decide), hne (d := '\n') (by decide)]
  rw [hkeep]
  exact List.dropWhile_suffix _

theorem splitScheme_suffix (s : Str) : (splitScheme s).2 <:+ s := by
  unfold splitScheme
  simp only
  split
  · exact List.drop_suffix _ s
  · exact List.suffix_refl s

theorem splitNetloc_suffix (s : Str) : (splitNetloc s).2 <:+ s := by
  unfold splitNetloc
  split
  · exact (List.dropWhile_suffix _).trans (List.drop_suffix _ s)
  · exact List.suffix_refl s

include hspace hlast in
theorem behindScheme_getLast? : (behindScheme w).getLast? ≠ some '/' :=
  getLast?_ne_of_suffix ((splitScheme_suffix _).trans (clean_suffix hspace)) hlast

include hspace hlast in
theorem behindNetloc_getLast? : (behindNetloc w).getLast? ≠ some '/' :=
  getLast?_ne_of_suffix (splitNetloc_suffix _) (behindScheme_getLast? hspace hlast)

theorem schemeOf_tail (hx : Tail x) (w : Str) : schemeOf (w ++ x) = schemeOf w := by
  rw [schemeOf, clean_tail hx, splitScheme_tail hx, schemeOf]

theorem behindScheme_tail (hx : Tail x) (w : Str) :
    behindScheme (w ++ x) = behindScheme w ++ x := by
  rw [behindScheme, clean_tail hx, splitScheme_tail hx, behindScheme]

include hspace hlast in
theorem netlocOf_tail (hx : Tail x) (hr : behindScheme w ≠ []) : netlocOf (w ++ x) = netlocOf w := by
  rw [netlocOf, behindScheme_tail hx, splitNetloc_tail hx hr (behindScheme_getLast? hspace hlast),
    netlocOf]

include hspace hlast in
theorem behindNetloc_tail (hx : Tail x) (hr : behindScheme w ≠ []) :
    behindNetloc (w ++ x) = behindNetloc w ++ x := by
  rw [behindNetloc, behindScheme_tail hx,
    splitNetloc_tail hx hr (behindScheme_getLast? hspace hlast), behindNetloc]

end tail

theorem urlPath_eq_some_iff {valid : Str → Bool} {url p : Str} :
    urlPath valid url = some p ↔ valid (netlocOf url) = true ∧
      unquote (withoutParams (schemeOf url) (pathOf (behindNetloc url))) = p := by
  have hmap : urlPath valid url = ((urlparse valid url).map (·.path)).map unquote := by
    rw [Option.map_map]
    rfl
  rw [hmap, urlparse_eq]
  split
  · rename_i hv
    simp [hv]
  · rename_i hv
    simp [hv]

/-- A URL with nothing behind the authority but slashes names no stream of the hub. -/
theorem no_slash_of_slashes {valid : Str → Bool} {url p : Str} {k : Nat}
    (ht : behindNetloc url = List.replicate k '/') (hp : urlPath valid url = some p) :
    '/' ∉ trackless p := by
  obtain ⟨-, rfl⟩ := urlPath_eq_some_iff.mp hp
  have hpath : pathOf (List.replicate k '/') = List.replicate k '/' := by
    simpa using pathOf_tail (tail_slashes k) []
  have hself : withoutParams (schemeOf url) (List.replicate k '/') = List.replicate k '/' := by
    refine withoutParams_eq_self fun _ h => ?_
    have hmem := List.eq_of_mem_replicate ((List.rtakeWhile_suffix _ _).mem h)
    exact absurd hmem (by decide)
  have hq : unquote (List.replicate k '/') = [] ++ List.replicate k '/' :=
    Unquote.unquote_replicate Unquote.separator_slash [] k
  rw [ht, hpath, hself, hq, trackless_append_slashes]
  decide

theorem splitNetloc_slashes (k : Nat) :
    ∃ j, (splitNetloc (List.replicate k '/')).2 = List.replicate j '/' := by
  have hsuffix := splitNetloc_suffix (List.replicate k '/')
  exact ⟨_, List.eq_replicate_iff.mpr
    ⟨rfl, fun c hc => List.eq_of_mem_replicate (hsuffix.mem hc)⟩⟩

theorem unquote_track (t : Str) : unquote (t ++ track) = unquote t ++ track := by
  have happ := Unquote.unquote_append Unquote.separator_slash t "track0".toList
  have h0 : unquote "track0".toList = "track0".toList := by decide +kernel
  rw [h0] at happ
  exact happ

/-- Parameters are cut off at the end of a path, but not in front of the track. -/
theorem trackless_params_ne {s t : Str} (hs : usesParams.contains s = true)
    (hmem : ';' ∈ lastSegment t) (hslash : '/' ∈ trackless (unquote (withoutParams s t))) :
    trackless (unquote t ++ track) ≠ trackless (unquote (withoutParams s t)) := by
  intro heq
  obtain ⟨params, hcut⟩ := withoutParams_cut hs hmem
  generalize withoutParams s t = a at hslash heq hcut
  subst hcut
  have hq := dropWhile_ne_nil hslash
  have hq' : (unquote a ++ ';' :: unquote params).dropWhile (· = '/') ≠ [] := by
    rw [dropWhile_slash_append hq]
    simp
  rw [Unquote.unquote_append Unquote.separator_semicolon, trackless_append_track hq',
    dropWhile_slash_append hq] at heq
  have hlen := congrArg List.length heq
  have hle := (trackless_length_le (unquote a)).trans (stripChar_length_le (unquote a))
  rw [List.length_append, List.length_cons] at hlen
  omega

/-- The look-up of a path with slashes behind it and of the track's path. -/
theorem lookup_track_iff {s t : Str} {k : Nat}
    (hslash : '/' ∈ trackless (unquote (withoutParams s (t ++ List.replicate k '/')))) :
    trackless (unquote (withoutParams s (t ++ track))) =
        trackless (unquote (withoutParams s (t ++ List.replicate k '/'))) ↔
      (usesParams.contains s → ';' ∉ lastSegment (t ++ List.replicate k '/')) ∧
        (unquote t).getLast? ≠ some '/' ∧ ¬ track <:+ unquote t := by
  have htrack : withoutParams s (t ++ track) = t ++ track := by
    refine withoutParams_eq_self fun _ => ?_
    have hseg : lastSegment (t ++ track) = "track0".toList :=
      lastSegment_append_slash t (x := "track0".toList) (by decide)
    rw [hseg]
    decide
  rw [htrack, unquote_track]
  by_cases hparams : usesParams.contains s → ';' ∉ lastSegment (t ++ List.replicate k '/')
  · rw [withoutParams_eq_self hparams, Unquote.unquote_replicate Unquote.separator_slash,
      trackless_append_slashes] at hslash ⊢
    rw [trackless_track_iff hslash]
    exact (and_iff_right hparams).symm
  · refine iff_of_false (fun heq => ?_) (fun h => hparams h.1)
    rw [Classical.not_imp, not_not] at hparams
    obtain ⟨hs, hmem⟩ := hparams
    obtain rfl : k = 0 := by
      cases k with
      | zero => rfl
      | succ k =>
        have hnil : lastSegment (t ++ List.replicate (k + 1) '/') = [] := by
          rw [List.replicate_succ', ← List.append_assoc]
          exact lastSegment_append_slash _ (x := []) (by simp)
        rw [hnil] at hmem
        cases hmem
    rw [List.replicate_zero, List.append_nil] at hslash hmem heq
    exact trackless_params_ne hs hmem hslash heq

theorem plainPath_iff (r : SplitResult) :
    PlainPath r ↔ (usesParams.contains r.scheme → ';' ∉ lastSegment r.path) ∧
      (unquote (rstripChar '/' r.path)).getLast? ≠ some '/' ∧
        ¬ track <:+ unquote (rstripChar '/' r.path) :=
  ⟨fun h => ⟨h.noParams, h.noSlash, h.noTrack⟩, fun ⟨h₁, h₂, h₃⟩ => ⟨h₁, h₂, h₃⟩⟩

/-- The two paths that the handlers look up, where the first one has a slash in it. -/
theorem urlPath_track {valid : Str → Bool} {url p : Str} (hspace : ∀ c ∈ url, isSpace c = false)
    (hp : urlPath valid url = some p) (hslash : '/' ∈ trackless p) :
    ∃ p', urlPath valid (trackUrl url) = some p' ∧
      (trackless p' = trackless p ↔ TrackFits valid url) := by
  obtain ⟨k, hk⟩ := exists_slashes url
  have hlast := rstripChar_getLast? url
  rw [trackUrl_eq]
  generalize rstripChar '/' url = w at hk hlast ⊢
  subst hk
  have hw : ∀ c ∈ w, isSpace c = false := fun c hc => hspace c (List.mem_append_left _ hc)
  have hslashes := tail_slashes k
  -- there is a path behind the authority
  have hr : behindScheme w ≠ [] := by
    intro h0
    obtain ⟨j, hj⟩ := splitNetloc_slashes k
    refine no_slash_of_slashes (k := j) ?_ hp hslash
    rw [behindNetloc, behindScheme_tail hslashes, h0]
    exact hj
  have ht := behindNetloc_tail hw hlast hslashes hr
  have ht' := behindNetloc_tail hw hlast tail_track hr
  have hpath := pathOf_tail hslashes (behindNetloc w)
  have hsplit := urlsplit_eq valid (w ++ List.replicate k '/')
  rw [urlPath_eq_some_iff, netlocOf_tail hw hlast hslashes hr, schemeOf_tail hslashes, ht] at hp
  rw [netlocOf_tail hw hlast hslashes hr, schemeOf_tail hslashes, ht] at hsplit
  obtain ⟨hvalid, rfl⟩ := hp
  have hsome : urlPath valid (w ++ track) =
      some (unquote (withoutParams (schemeOf w) (pathOf (behindNetloc w ++ track)))) := by
    rw [urlPath_eq_some_iff, netlocOf_tail hw hlast tail_track hr, schemeOf_tail tail_track, ht']
    exact ⟨hvalid, rfl⟩
  refine ⟨_, hsome, ?_⟩
  have hmark {c : Char} (h : EndMark c) (hc : c ∉ List.replicate k '/') :
      c ∈ w ++ List.replicate k '/' ↔ c ∈ behindNetloc w := by
    rw [← mem_behindNetloc_iff h, ht, List.mem_append]
    simp only [hc, or_false]
  rw [TrackFits, hmark endMark_query hslashes.noQuery, hmark endMark_fragment hslashes.noFragment,
    pathOf_tail tail_track]
  by_cases hm : '#' ∈ behindNetloc w ∨ '?' ∈ behindNetloc w
  · -- neither the track nor the slashes are in the path
    rw [hpath, if_pos hm, if_pos hm]
    exact iff_of_true rfl (or_assoc.mp (.inl hm.symm))
  · rw [if_pos hvalid] at hsplit
    rw [hpath, if_neg hm] at hslash hsplit
    rw [hpath, if_neg hm, if_neg hm, lookup_track_iff hslash]
    obtain ⟨r, hr', heq⟩ := Option.map_eq_some_iff.mp hsplit
    obtain ⟨hscheme, hrpath⟩ := Prod.mk.inj heq
    have hplain := plainPath_iff r
    rw [hscheme, hrpath, rstripChar_append_slashes (behindNetloc_getLast? hw hlast)] at hplain
    rw [← hplain, hr']
    rw [not_or] at hm
    simp [hm.1, hm.2]

/-- The answer to a DESCRIBE has the parts of the track's URL. -/
theorem describeAnswer_track {url S cseq : Str} {sps pps : Option Bytes} {info : StreamInfo}
    {r : Response} {k : After} (h : Conn.describeAnswer url S cseq sps pps info = .answer r k) :
    ("Content-Base".toList, contentBase url) ∈ r.headers ∧
      ∃ before after, r.body =
        encode (before ++ ("a=control:".toList ++ controlName ++ crlf) ++ after) := by
  unfold Conn.describeAnswer at h
  split at h
  · rename_i sps pps
    cases h
    refine ⟨by simp [Response.ok, contentBase], ?_⟩
    have hlines (as bs : List Str) (l : Str) :
        (as ++ l :: bs).flatMap (· ++ crlf) =
          as.flatMap (· ++ crlf) ++ (l ++ crlf) ++ bs.flatMap (· ++ crlf) := by
      simp only [List.flatMap_append, List.flatMap_cons, List.append_assoc]
    refine ⟨_, _, congrArg encode (hlines _ ["a=recvonly".toList] _)⟩
  · cases h

theorem url_no_space {line : Bytes} {method url version : Str}
    (h : Conn.tokens line = [method, url, version]) : ∀ c ∈ url, isSpace c = false := by
  have hmem : url ∈ split (strip (latin1 line)) := by
    change url ∈ Conn.tokens line
    rw [h]
    simp
  exact not_of_mem_splitOnP (List.mem_filter.mp hmem).1

/-- A SETUP of the URL formed from the answer to a DESCRIBE finds the stream described, exactly if the
URL of the DESCRIBE has a query or a fragment or a plain path. -/
theorem setup_finds_iff (py : Builtins) (cfg : Config) (hub : List StreamConfig)
    (hhub : buildHub py cfg = some hub) (valid : Str → Bool) (auth : Option (Str × Str))
    (line : Bytes) (method url version : Str) (hline : Conn.tokens line = [method, url, version])
    (S : Str) (hfound : (server valid auth hub).streamFor url = .found S) :
    (server valid auth hub).streamFor (trackUrl url) = .found S ↔ TrackFits valid url := by
  rw [streamFor_eq] at hfound
  cases hp : (server valid auth hub).urlPath url with
  | none =>
    rw [hp] at hfound
    cases hfound
  | some p =>
    rw [hp] at hfound
    simp only at hfound
    split at hfound
    · rename_i hmem
      cases hfound
      obtain ⟨p', hp', hiff⟩ := urlPath_track (url_no_space hline) hp (slash_mem_name hhub hmem)
      have hp' : (server valid auth hub).urlPath (trackUrl url) = some p' := hp'
      rw [streamFor_eq, hp', ← hiff]
      simp only
      constructor
      · intro h
        split at h
        · exact Lookup.found.inj h
        · cases h
      · intro h
        rw [h, if_pos hmem]
    · cases hfound

/-! A hub of one stream. -/

def camBuiltins : Builtins :=
  { format := fun v => match v with
      | .str s => s
      | .int n => decimalInt n
      | _ => []
    float := fun v => match v with
      | .float x => some x
      | _ => none }

/-- A device `dvr` with its channel 1. -/
def dvrConfig : Config :=
  { server := { listen := .str "0.0.0.0".toList, port := 8554, username := none, password := none }
    devices := [.table [("name".toList, .str "dvr".toList), ("driver".toList, .str "netdvr3".toList),
      ("host".toList, .str "192.168.1.108".toList)]] }

theorem dvrHub_isSome : (buildHub camBuiltins dvrConfig).isSome = true := by decide +kernel

def dvrHub : List StreamConfig := (buildHub camBuiltins dvrConfig).get dvrHub_isSome

theorem buildHub_dvr : buildHub camBuiltins dvrConfig = some dvrHub :=
  (Option.some_get dvrHub_isSome).symm

def dvrServer : Server := server (fun _ => true) none dvrHub

theorem setup_finds_plain : TrackFits (fun _ => true) "rtsp://h/dvr/ch1/".toList :=
  (setup_finds_iff camBuiltins dvrConfig dvrHub buildHub_dvr (fun _ => true) none
    (encode "DESCRIBE rtsp://h/dvr/ch1/ RTSP/1.0".toList) "DESCRIBE".toList
    "rtsp://h/dvr/ch1/".toList "RTSP/1.0".toList (by decide +kernel) "dvr/ch1".toList
    (by decide +kernel)).mp (by decide +kernel)

/-- Parameters, a track and an escaped slash at the end of the path get in between. -/
theorem not_setup_finds : ¬ ∀ (py : Builtins) (cfg : Config) (hub : List StreamConfig),
    buildHub py cfg = some hub → ∀ (valid : Str → Bool) (auth : Option (Str × Str)) (line : Bytes)
      (method url version : Str), Conn.tokens line = [method, url, version] →
        ∀ S, (server valid auth hub).streamFor url = .found S →
          (server valid auth hub).streamFor (trackUrl url) = .found S := by
  intro h
  have hsetup := h camBuiltins dvrConfig dvrHub buildHub_dvr (fun _ => true) none
    (encode "DESCRIBE rtsp://h/dvr/ch1;p RTSP/1.0".toList) "DESCRIBE".toList
    "rtsp://h/dvr/ch1;p".toList "RTSP/1.0".toList (by decide +kernel) "dvr/ch1".toList
    (by decide +kernel)
  exact absurd hsetup (by decide +kernel)

example : ["rtsp://h/dvr/ch1", "rtsp://h/dvr/ch1;p", "rtsp://h/dvr/ch1/track0", "rtsp://h/dvr/ch1%2F",
    "rtsp://h/dvr/ch1?x"].map (fun url => dvrServer.streamFor (trackUrl url.toList)) =
      [.found "dvr/ch1".toList, .notFound, .notFound, .notFound, .found "dvr/ch1".toList] := by
  decide +kernel

end DvrBridge.RtspUrl
