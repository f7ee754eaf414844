import DvrBridge.PyText

/-! `urlparse` of `urllib.parse`. -/
namespace DvrBridge.UrlParse
open PyText

/-- The schemes whose URLs have `;params`. -/
def usesParams : List Str :=
  ["", "ftp", "hdl", "prospero", "http", "imap", "https", "shttp", "rtsp", "rtsps", "rtspu", "sip",
    "sips", "mms", "sftp", "tel"].map String.toList

def isSchemeChar (c : Char) : Bool := c.isAlphanum || c = '+' || c = '-' || c = '.'

/-- Leading control characters and spaces go, and tabs and line ends everywhere. -/
def clean (url : Str) : Str :=
  (url.dropWhile (·.toNat ≤ 0x20)).filter fun c => c ≠ '\t' && c ≠ '\r' && c ≠ '\n'

/-- The scheme, if there is one, and the rest. -/
def splitScheme (url : Str) : Str × Str :=
  let head := url.takeWhile (· ≠ ':')
  if head.length < url.length ∧ (head.head?.any Char.isAlpha) = true ∧ head.all isSchemeChar = true
  then (lower head, url.drop (head.length + 1))
  else ([], url)

def isDelimiter (c : Char) : Bool := c = '/' || c = '?' || c = '#'

/-- The authority, if there is one, and the rest. -/
def splitNetloc (url : Str) : Str × Str :=
  if "//".toList <+: url then
    ((url.drop 2).takeWhile (!isDelimiter ·), (url.drop 2).dropWhile (!isDelimiter ·))
  else ([], url)

structure SplitResult where
  scheme : Str
  netloc : Str
  path : Str
  query : Str
  fragment : Str

/-- `valid netloc`: neither the brackets nor the NFKC form of the authority is refused; otherwise
there is a `ValueError`. -/
def urlsplit (valid : Str → Bool) (url : Str) : Option SplitResult :=
  let (scheme, url) := splitScheme (clean url)
  let (netloc, url) := splitNetloc url
  let (url, fragment) := partition '#' url
  let (path, query) := partition '?' url
  if valid netloc then
    some { scheme := scheme, netloc := netloc, path := path, query := query, fragment := fragment }
  else none

/-- `_splitparams`: the parameters are in the last segment. -/
def splitParams (path : Str) : Str × Str :=
  let (segment, params) := partition ';' (path.rtakeWhile (· ≠ '/'))
  (path.rdropWhile (· ≠ '/') ++ segment, params)

structure ParseResult extends SplitResult where
  params : Str

def urlparse (valid : Str → Bool) (url : Str) : Option ParseResult :=
  (urlsplit valid url).map fun r =>
    if usesParams.contains r.scheme ∧ ';' ∈ r.path then
      let (path, params) := splitParams r.path
      { r with path := path, params := params }
    else { r with params := [] }

/-! What more path behind a URL changes. -/

/-- Segments that are appended to a URL. -/
structure Tail (x : Str) : Prop where
  slash : ∀ c, x.head? = some c → c = '/'
  noColon : ':' ∉ x
  noQuery : '?' ∉ x
  noFragment : '#' ∉ x
  visible : ∀ c ∈ x, 0x20 < c.toNat

/-- A tail stops a scan that a slash stops. -/
theorem takeWhile_tail {p : Char → Bool} (hp : p '/' = false) {x : Str} (hx : Tail x) (l : Str) :
    (l ++ x).takeWhile p = l.takeWhile p ∧ (l ++ x).dropWhile p = l.dropWhile p ++ x := by
  have htail : x.takeWhile p = [] ∧ x.dropWhile p = x := by
    cases x with
    | nil => exact ⟨rfl, rfl⟩
    | cons c x =>
      have hc : p c = false := by rw [hx.slash c rfl, hp]
      exact ⟨List.takeWhile_cons_of_neg (by simp [hc]), List.dropWhile_cons_of_neg (by simp [hc])⟩
  constructor
  · rw [List.takeWhile_append]
    split
    · rename_i hl
      rw [htail.1, List.append_nil, ((List.takeWhile_prefix p).eq_of_length hl)]
    · rfl
  · rw [List.dropWhile_append]
    split
    · rename_i hl
      rw [htail.2, List.isEmpty_iff.mp hl, List.nil_append]
    · rfl

theorem all_ne {a : Char} {l : Str} (h : a ∉ l) : ∀ c ∈ l, decide (c ≠ a) = true := by
  intro c hc
  have hca : c ≠ a := fun he => h (he ▸ hc)
  exact decide_eq_true hca

theorem takeWhile_ne_self {a : Char} {l : Str} (h : a ∉ l) : l.takeWhile (· ≠ a) = l :=
  List.takeWhile_eq_self_iff.mpr (all_ne h)

theorem takeWhile_ne_cons {a : Char} {l : Str} (h : a ∉ l) (rest : Str) :
    (l ++ a :: rest).takeWhile (· ≠ a) = l := by
  rw [List.takeWhile_append_of_pos (all_ne h), List.takeWhile_cons_of_neg (by simp),
    List.append_nil]

/-- A scan for a symbol that the tail does not have. -/
theorem takeWhile_ne_append {a : Char} (l : Str) {x : Str} (hx : a ∉ x) :
    (l ++ x).takeWhile (· ≠ a) = if a ∈ l then l.takeWhile (· ≠ a) else l ++ x := by
  split
  · rename_i hl
    obtain ⟨u, v, rfl, hu⟩ := List.eq_append_cons_of_mem hl
    rw [List.append_assoc, List.cons_append, takeWhile_ne_cons hu, takeWhile_ne_cons hu]
  · rename_i hl
    exact takeWhile_ne_self (by simp [hl, hx])

variable {x : Str}

theorem clean_tail (hx : Tail x) (w : Str) : clean (w ++ x) = clean w ++ x := by
  have hkeep : x.filter (fun c => c ≠ '\t' && c ≠ '\r' && c ≠ '\n') = x := by
    refine List.filter_eq_self.mpr fun c hc => ?_
    have hv := hx.visible c hc
    have hne {d : Char} (hd : d.toNat ≤ 0x20) : c ≠ d := fun h => by
      rw [h] at hv
      omega
    simp [hne (d := '\t') (by decide), hne (d := '\r') (by decide), hne (d := '\n') (by decide)]
  have hdrop := (takeWhile_tail (p := (·.toNat ≤ 0x20)) (by decide) hx w).2
  rw [clean, hdrop, List.filter_append, hkeep]
  rfl

theorem splitScheme_tail (hx : Tail x) (c : Str) :
    splitScheme (c ++ x) = ((splitScheme c).1, (splitScheme c).2 ++ x) := by
  unfold splitScheme
  simp only [takeWhile_ne_append c hx.noColon]
  by_cases hc : ':' ∈ c
  · obtain ⟨u, v, rfl, hu⟩ := List.eq_append_cons_of_mem hc
    simp only [if_pos hc, takeWhile_ne_cons hu]
    have hlen (y : Str) : u.length < (u ++ ':' :: v ++ y).length := by
      simp only [List.length_append, List.length_cons]
      omega
    have hlen' : u.length < (u ++ ':' :: v).length := by simp
    simp only [hlen x, hlen', true_and]
    split
    · rw [List.drop_append_of_le_length (by simp)]
    · rfl
  · simp only [if_neg hc, takeWhile_ne_self hc, Nat.lt_irrefl, false_and, if_false]

theorem prefix_slashes_append {r : Str} (hr : r ≠ []) (hlast : r.getLast? ≠ some '/') (x : Str) :
    "//".toList <+: r ++ x ↔ "//".toList <+: r := by
  match r with
  | [] => exact absurd rfl hr
  | [a] =>
    have ha : a ≠ '/' := fun h => hlast (by rw [h]; rfl)
    constructor
    · rintro ⟨y, hy⟩
      exact absurd (List.cons.inj hy).1.symm ha
    · rintro ⟨y, hy⟩
      exact absurd (List.cons.inj hy).1.symm ha
  | a :: b :: r =>
    simp [List.cons_prefix_cons]

theorem splitNetloc_tail (hx : Tail x) {r : Str} (hr : r ≠ []) (hlast : r.getLast? ≠ some '/') :
    splitNetloc (r ++ x) = ((splitNetloc r).1, (splitNetloc r).2 ++ x) := by
  unfold splitNetloc
  by_cases hp : "//".toList <+: r
  · obtain ⟨y, rfl⟩ := hp
    have hdrop : ("//".toList ++ y ++ x).drop 2 = y ++ x := rfl
    have hdrop' : ("//".toList ++ y).drop 2 = y := rfl
    have hscan := takeWhile_tail (p := (!isDelimiter ·)) (by decide) hx y
    rw [if_pos ((prefix_slashes_append hr hlast x).mpr ⟨y, rfl⟩), if_pos ⟨y, rfl⟩, hdrop, hdrop',
      hscan.1, hscan.2]
  · rw [if_neg (mt (prefix_slashes_append hr hlast x).mp hp), if_neg hp]

/-- The path of what follows the authority. -/
def pathOf (t : Str) : Str := (partition '?' (partition '#' t).1).1

theorem pathOf_tail (hx : Tail x) (t : Str) :
    pathOf (t ++ x) = if '#' ∈ t ∨ '?' ∈ t then pathOf t else t ++ x := by
  have hpath (t : Str) : pathOf t = (t.takeWhile (· ≠ '#')).takeWhile (· ≠ '?') := rfl
  rw [hpath, hpath, takeWhile_ne_append t hx.noFragment]
  by_cases hf : '#' ∈ t
  · rw [if_pos hf, if_pos (.inl hf)]
  · rw [if_neg hf, takeWhile_ne_append t hx.noQuery, takeWhile_ne_self hf]
    simp [hf]

/-! The pieces of a URL, by name. -/

def schemeOf (url : Str) : Str := (splitScheme (clean url)).1

/-- What follows the scheme. -/
def behindScheme (url : Str) : Str := (splitScheme (clean url)).2

def netlocOf (url : Str) : Str := (splitNetloc (behindScheme url)).1

/-- What follows the authority. -/
def behindNetloc (url : Str) : Str := (splitNetloc (behindScheme url)).2

/-- The last segment of a path. -/
def lastSegment (path : Str) : Str := path.rtakeWhile (· ≠ '/')

/-- The path without parameters. -/
def withoutParams (scheme path : Str) : Str :=
  if usesParams.contains scheme ∧ ';' ∈ path then (splitParams path).1 else path

theorem urlsplit_eq (valid : Str → Bool) (url : Str) :
    (urlsplit valid url).map (fun r => (r.scheme, r.path)) =
      if valid (netlocOf url) then some (schemeOf url, pathOf (behindNetloc url)) else none := by
  change (if valid (netlocOf url) then some _ else none : Option SplitResult).map _ = _
  split <;> rfl

theorem urlparse_eq (valid : Str → Bool) (url : Str) :
    (urlparse valid url).map (·.path) =
      if valid (netlocOf url) then
        some (withoutParams (schemeOf url) (pathOf (behindNetloc url)))
      else none := by
  have hpath : (urlparse valid url).map (·.path) =
      ((urlsplit valid url).map fun r => (r.scheme, r.path)).map fun p =>
        withoutParams p.1 p.2 := by
    rw [urlparse, Option.map_map, Option.map_map]
    congr 1
    funext r
    simp only [Function.comp, withoutParams]
    split <;> rfl
  rw [hpath, urlsplit_eq]
  split <;> rfl

theorem withoutParams_eq_self {scheme path : Str}
    (h : usesParams.contains scheme → ';' ∉ lastSegment path) : withoutParams scheme path = path := by
  unfold withoutParams
  split
  · rename_i hs
    have hseg : (partition ';' (lastSegment path)).1 = lastSegment path :=
      takeWhile_ne_self (h hs.1)
    change path.rdropWhile (· ≠ '/') ++ (partition ';' (lastSegment path)).1 = path
    rw [hseg]
    exact List.rdropWhile_append_rtakeWhile
  · rfl

/-- Parameters are cut off at a semicolon. -/
theorem withoutParams_cut {scheme path : Str} (hs : usesParams.contains scheme)
    (h : ';' ∈ lastSegment path) :
    ∃ params, path = withoutParams scheme path ++ ';' :: params := by
  have hall : path.rdropWhile (· ≠ '/') ++ lastSegment path = path :=
    List.rdropWhile_append_rtakeWhile
  have hmem : ';' ∈ path := by
    rw [← hall]
    exact List.mem_append_right _ h
  obtain ⟨u, v, hseg, hu⟩ := List.eq_append_cons_of_mem h
  have hcut : (partition ';' (lastSegment path)).1 = u := by
    rw [hseg]
    exact takeWhile_ne_cons hu v
  refine ⟨v, ?_⟩
  rw [withoutParams, if_pos ⟨hs, hmem⟩]
  change path = path.rdropWhile (· ≠ '/') ++ (partition ';' (lastSegment path)).1 ++ ';' :: v
  rw [hcut, List.append_assoc, ← hseg, hall]

theorem lastSegment_append_slash (p : Str) {x : Str} (hx : '/' ∉ x) :
    lastSegment (p ++ '/' :: x) = x := by
  have hrev : ∀ c ∈ x.reverse, decide (c ≠ '/') = true := all_ne (by simpa using hx)
  rw [lastSegment, List.rtakeWhile, List.reverse_append, List.reverse_cons, List.append_assoc,
    List.takeWhile_append_of_pos hrev, List.singleton_append, List.takeWhile_cons_of_neg (by simp),
    List.append_nil, List.reverse_reverse]

/-- A symbol that ends the authority or the path, and stands in no scheme. -/
structure EndMark (c : Char) : Prop where
  visible : 0x20 < c.toNat
  noScheme : isSchemeChar c = false
  noColon : c ≠ ':'
  delimiter : isDelimiter c = true
  noSlash : c ≠ '/'

theorem endMark_query : EndMark '?' := ⟨by decide, by decide, by decide, by decide, by decide⟩

theorem endMark_fragment : EndMark '#' := ⟨by decide, by decide, by decide, by decide, by decide⟩

theorem mem_dropWhile_iff {p : Char → Bool} {c : Char} (hc : p c = false) (s : Str) :
    c ∈ s.dropWhile p ↔ c ∈ s := by
  have hsplit : c ∈ s ↔ c ∈ s.takeWhile p ∨ c ∈ s.dropWhile p := by
    rw [← List.mem_append, List.takeWhile_append_dropWhile]
  have hnot : c ∉ s.takeWhile p := fun h => by
    rw [List.mem_takeWhile_imp h] at hc
    cases hc
  rw [hsplit]
  simp [hnot]

variable {c : Char}

theorem mem_clean_iff (h : EndMark c) (url : Str) : c ∈ clean url ↔ c ∈ url := by
  have hne {d : Char} (hd : d.toNat ≤ 0x20) : c ≠ d := fun he =>
    absurd h.visible (Nat.not_lt_of_le (he ▸ hd))
  rw [clean, List.mem_filter, mem_dropWhile_iff (decide_eq_false (Nat.not_le_of_lt h.visible))]
  simp [hne (d := '\t') (by decide), hne (d := '\r') (by decide), hne (d := '\n') (by decide)]

theorem mem_splitScheme_iff (h : EndMark c) (s : Str) : c ∈ (splitScheme s).2 ↔ c ∈ s := by
  unfold splitScheme
  simp only
  split
  · rename_i hs
    obtain ⟨hlt, -, hall⟩ := hs
    have hcolon : ':' ∈ s := by
      by_contra hn
      rw [takeWhile_ne_self hn] at hlt
      exact Nat.lt_irrefl _ hlt
    obtain ⟨u, v, rfl, hu⟩ := List.eq_append_cons_of_mem hcolon
    rw [takeWhile_ne_cons hu] at hall
    have hc : c ∉ u := fun hm => by
      have hs := List.all_eq_true.mp hall c hm
      rw [h.noScheme] at hs
      cases hs
    have hdrop : (u ++ ':' :: v).drop (u.length + 1) = v := by simp
    rw [takeWhile_ne_cons hu, hdrop]
    simp [hc, h.noColon]
  · rfl

theorem mem_splitNetloc_iff (h : EndMark c) (r : Str) : c ∈ (splitNetloc r).2 ↔ c ∈ r := by
  unfold splitNetloc
  split
  · rename_i hp
    obtain ⟨y, rfl⟩ := hp
    have hdrop : ("//".toList ++ y).drop 2 = y := rfl
    rw [hdrop, mem_dropWhile_iff (by simp [h.delimiter])]
    simp [h.noSlash]
  · rfl

/-- Queries and fragments stand behind the authority. -/
theorem mem_behindNetloc_iff (h : EndMark c) (url : Str) : c ∈ behindNetloc url ↔ c ∈ url := by
  rw [behindNetloc, mem_splitNetloc_iff h, behindScheme, mem_splitScheme_iff h, mem_clean_iff h]

end DvrBridge.UrlParse
