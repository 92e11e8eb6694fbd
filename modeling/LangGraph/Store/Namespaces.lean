import LangGraph.Collections.Like
import LangGraph.Collections.Separated
import Mathlib.Data.List.Dedup

namespace LangGraph

open Collections

namespace Store

abbrev Namespace := List String

-- What `_validate_namespace` lets in.
structure StoredNamespace where
  labels : Namespace
  nonempty : labels ≠ []
  valid : ∀ l ∈ labels, l ≠ "" ∧ '.' ∉ l.toList

inductive MatchType where
  | leading
  | trailing
  deriving DecidableEq

structure MatchCondition where
  matchType : MatchType
  path : Namespace

def namespaceToText (handleWildcards : Bool) (ns : Namespace) : String :=
  joinText '.' (if handleWildcards then ns.map (fun l => if l = "*" then "%" else l) else ns)

def decodeNsText (text : String) : Namespace := splitText '.' text

structure StoreRow where
  text : String
  key : String
  deriving DecidableEq

-- `_does_match` of the in-memory store.
def labelsMatch : Namespace → Namespace → Bool
  | k :: key, p :: path => (p = "*" || k = p) && labelsMatch key path
  | _, _ => true

def doesMatch (c : MatchCondition) (key : Namespace) : Bool :=
  if key.length < c.path.length then false
  else
    match c.matchType with
    | .leading => labelsMatch key c.path
    | .trailing => labelsMatch key.reverse c.path.reverse

namespace SqliteStore

def insertRow (ns : StoredNamespace) (key : String) : StoreRow :=
  ⟨namespaceToText false ns.labels, key⟩

def searchPattern (namespaceLeading : Namespace) : List Char :=
  (namespaceToText false namespaceLeading).toList ++ ['%']

def search (rows : List StoreRow) (namespaceLeading : Namespace) : List (Namespace × String) :=
  (rows.filter (fun r => like (searchPattern namespaceLeading) r.text.toList)).map
    (fun r => (decodeNsText r.text, r.key))

def conditionPattern (c : MatchCondition) : List Char :=
  match c.matchType with
  | .leading => (namespaceToText true c.path).toList ++ ['%']
  | .trailing => '%' :: (namespaceToText true c.path).toList

-- SELECT DISTINCT before ORDER BY, LIMIT and OFFSET.
def listNamespaces (rows : List StoreRow) (conditions : List MatchCondition) : List Namespace :=
  ((rows.map StoreRow.text).filter
    (fun t => conditions.all (fun c => like (conditionPattern c) t.toList))).dedup.map decodeNsText

-- The text of the namespace begins like that of the prefix.
def BeginsLike (namespaceLeading ns : Namespace) : Prop :=
  ∃ u, u <+: (namespaceToText false ns).toList ∧
    Lenient (namespaceToText false namespaceLeading).toList u

def FitsLike (c : MatchCondition) (ns : Namespace) : Prop :=
  match c.matchType with
  | .leading => ∃ u, u <+: (namespaceToText false ns).toList ∧
      Lenient (namespaceToText true c.path).toList u
  | .trailing => ∃ u, u <:+ (namespaceToText false ns).toList ∧
      Lenient (namespaceToText true c.path).toList u

end SqliteStore

section Texts

theorem decodeNsText_text (ns : StoredNamespace) :
    decodeNsText (namespaceToText false ns.labels) = ns.labels :=
  splitText_joinText_of_ne_nil (fun l hl => (ns.valid l hl).2) ns.nonempty

theorem text_singleton (w : Bool) (l : String) :
    namespaceToText w [l] = if w = true ∧ l = "*" then "%" else l := by
  cases w with
  | false => simp [namespaceToText, joinText_singleton]
  | true =>
    by_cases hl : l = "*"
    · simp [namespaceToText, hl, joinText_singleton]
    · simp [namespaceToText, hl, joinText_singleton]

theorem toList_text_append (w : Bool) {ns ms : Namespace} (hns : ns ≠ []) (hms : ms ≠ []) :
    (namespaceToText w (ns ++ ms)).toList =
      (namespaceToText w ns).toList ++ '.' :: (namespaceToText w ms).toList := by
  have hjoin (ps qs : List String) (hps : ps ≠ []) (hqs : qs ≠ []) :
      (joinText '.' (ps ++ qs)).toList = (joinText '.' ps).toList ++ '.' ::
        (joinText '.' qs).toList := by
    rw [joinText, String.intercalate_append_of_ne_nil hps hqs]
    simp [joinText]
  cases w with
  | false => exact hjoin ns ms hns hms
  | true =>
    simp only [namespaceToText, if_true, List.map_append]
    exact hjoin _ _ (by simpa using hns) (by simpa using hms)

theorem lenient_label {k p : String} (h : p = "*" ∨ k = p) :
    Lenient (namespaceToText true [p]).toList (namespaceToText false [k]).toList := by
  have hkey : namespaceToText false [k] = k := by simp [text_singleton]
  have hpath : namespaceToText true [p] = if p = "*" then "%" else p := by simp [text_singleton]
  rw [hkey, hpath]
  split
  · exact Lenient.run_self k.toList
  · rename_i hp
    rw [h.resolve_left hp]
    exact Lenient.refl p.toList

-- Labels that match one by one have texts that match.
theorem lenient_of_labelsMatch {key path : Namespace} (hlen : key.length = path.length)
    (h : labelsMatch key path = true) :
    Lenient (namespaceToText true path).toList (namespaceToText false key).toList := by
  induction path generalizing key with
  | nil =>
    rw [List.length_eq_zero_iff.mp hlen]
    exact Lenient.refl _
  | cons p path ih =>
    cases key with
    | nil => cases hlen
    | cons k key =>
      obtain ⟨hkp, hrest⟩ := Bool.and_eq_true_iff.mp h
      have hkp : p = "*" ∨ k = p := by simpa using hkp
      have hlen : key.length = path.length := Nat.succ.inj hlen
      cases path with
      | nil =>
        rw [List.length_eq_zero_iff.mp hlen]
        exact lenient_label hkp
      | cons q path =>
        have hkey : key ≠ [] := List.ne_nil_of_length_eq_add_one hlen
        have hpath := toList_text_append true (List.cons_ne_nil p []) (List.cons_ne_nil q path)
        have hkeys := toList_text_append false (List.cons_ne_nil k []) hkey
        rw [List.singleton_append] at hpath hkeys
        rw [hpath, hkeys]
        exact (lenient_label hkp).append (.letter rfl (ih hlen hrest))

theorem labelsMatch_take {key path : Namespace} (h : labelsMatch key path = true) :
    labelsMatch (key.take path.length) path = true := by
  induction path generalizing key with
  | nil => rfl
  | cons p path ih =>
    cases key with
    | nil => exact h
    | cons k key =>
      obtain ⟨hkp, hrest⟩ := Bool.and_eq_true_iff.mp h
      exact Bool.and_eq_true_iff.mpr ⟨hkp, ih hrest⟩

theorem labelsMatch_append {key path key' path' : Namespace} (hlen : key.length = path.length)
    (h : labelsMatch key path = true) (h' : labelsMatch key' path' = true) :
    labelsMatch (key ++ key') (path ++ path') = true := by
  induction path generalizing key with
  | nil =>
    rw [List.length_eq_zero_iff.mp hlen]
    exact h'
  | cons p path ih =>
    cases key with
    | nil => cases hlen
    | cons k key =>
      obtain ⟨hkp, hrest⟩ := Bool.and_eq_true_iff.mp h
      exact Bool.and_eq_true_iff.mpr ⟨hkp, ih (Nat.succ.inj hlen) hrest⟩

theorem labelsMatch_reverse {key path : Namespace} (hlen : key.length = path.length)
    (h : labelsMatch key path = true) : labelsMatch key.reverse path.reverse = true := by
  induction path generalizing key with
  | nil =>
    rw [List.length_eq_zero_iff.mp hlen]
    rfl
  | cons p path ih =>
    cases key with
    | nil => cases hlen
    | cons k key =>
      obtain ⟨hkp, hrest⟩ := Bool.and_eq_true_iff.mp h
      have hlen : key.length = path.length := Nat.succ.inj hlen
      rw [List.reverse_cons, List.reverse_cons]
      refine labelsMatch_append (by simpa using hlen) (ih hlen hrest) ?_
      rw [labelsMatch, hkp]
      rfl

theorem text_prefix {pre ns : Namespace} (h : pre <+: ns) :
    (namespaceToText false pre).toList <+: (namespaceToText false ns).toList := by
  obtain ⟨rest, rfl⟩ := h
  by_cases hpre : pre = []
  · rw [hpre]
    exact List.nil_prefix
  · by_cases hrest : rest = []
    · rw [hrest, List.append_nil]
    · rw [toList_text_append false hpre hrest]
      exact List.prefix_append _ _

theorem text_suffix {suf ns : Namespace} (h : suf <:+ ns) :
    (namespaceToText false suf).toList <:+ (namespaceToText false ns).toList := by
  obtain ⟨rest, rfl⟩ := h
  by_cases hsuf : suf = []
  · rw [hsuf]
    exact List.nil_suffix
  · by_cases hrest : rest = []
    · rw [hrest, List.nil_append]
    · rw [toList_text_append false hrest hsuf]
      exact ⟨(namespaceToText false rest).toList ++ ['.'], by simp⟩

end Texts

section Plain

variable {α : Type} {sep : α} {a b x y : List α}

theorem prefix_before (ha : sep ∉ a) : a <+: b ++ sep :: y ↔ a <+: b := by
  induction a generalizing b with
  | nil => exact iff_of_true List.nil_prefix List.nil_prefix
  | cons c a ih =>
    have ha' : sep ∉ a := fun h => ha (List.mem_cons_of_mem c h)
    cases b with
    | nil =>
      refine iff_of_false (fun h => ?_) (fun h => by simp at h)
      exact ha ((List.cons_prefix_cons.mp h).1 ▸ List.mem_cons_self)
    | cons d b => rw [List.cons_append, List.cons_prefix_cons, List.cons_prefix_cons, ih ha']

theorem prefix_across (ha : sep ∉ a) (hb : sep ∉ b) :
    a ++ sep :: x <+: b ++ sep :: y ↔ a = b ∧ x <+: y := by
  induction a generalizing b with
  | nil =>
    cases b with
    | nil => simp [List.cons_prefix_cons]
    | cons d b =>
      refine iff_of_false (fun h => ?_) (fun h => nomatch h.1)
      exact hb ((List.cons_prefix_cons.mp h).1 ▸ List.mem_cons_self)
  | cons c a ih =>
    have ha' : sep ∉ a := fun h => ha (List.mem_cons_of_mem c h)
    cases b with
    | nil =>
      refine iff_of_false (fun h => ?_) (fun h => nomatch h.1)
      exact ha ((List.cons_prefix_cons.mp h).1 ▸ List.mem_cons_self)
    | cons d b =>
      have hb' : sep ∉ b := fun h => hb (List.mem_cons_of_mem d h)
      rw [List.cons_append, List.cons_append, List.cons_prefix_cons, ih ha' hb', List.cons.injEq,
        and_assoc]

-- The labels of the prefix up to case, the last of them only as the beginning of a label.
def BeginsFolded : Namespace → Namespace → Prop
  | [], _ => True
  | [p], k :: _ => p.toList.map Char.toLower <+: k.toList.map Char.toLower
  | p :: pre, k :: ns =>
      p.toList.map Char.toLower = k.toList.map Char.toLower ∧ BeginsFolded pre ns
  | _ :: _, [] => False

theorem toLower_dot {c : Char} (h : c.toLower = '.') : c = '.' := by
  unfold Char.toLower at h
  split at h
  · rename_i hrange
    exfalso
    have hval := congrArg (fun c : Char => c.val.toNat) h
    have hshift : ('a'.val - 'A'.val).toNat = 32 := by decide
    have hdot : ('.').val.toNat = 46 := by decide
    have hlow : 65 ≤ c.val.toNat := hrange.1
    have hhigh : c.val.toNat ≤ 90 := hrange.2
    simp only [UInt32.toNat_add] at hval
    rw [hshift, hdot] at hval
    omega
  · exact h

theorem dot_not_folded {l : String} (h : '.' ∉ l.toList) : '.' ∉ l.toList.map Char.toLower := by
  intro hmem
  obtain ⟨c, hc, hlower⟩ := List.mem_map.mp hmem
  exact h (toLower_dot hlower ▸ hc)

theorem beginsLike_folded {pre ns : Namespace}
    (hpre : ∀ l ∈ pre, '%' ∉ l.toList ∧ '_' ∉ l.toList) :
    SqliteStore.BeginsLike pre ns ↔
      (namespaceToText false pre).toList.map Char.toLower <+:
        (namespaceToText false ns).toList.map Char.toLower := by
  have hplain : '%' ∉ (namespaceToText false pre).toList ∧
      '_' ∉ (namespaceToText false pre).toList := by
    constructor
    · intro hmem
      rcases mem_joinText hmem with hdot | ⟨l, hl, hc⟩
      · exact absurd hdot (by decide)
      · exact (hpre l hl).1 hc
    · intro hmem
      rcases mem_joinText hmem with hdot | ⟨l, hl, hc⟩
      · exact absurd hdot (by decide)
      · exact (hpre l hl).2 hc
  constructor
  · rintro ⟨u, hu, hlenient⟩
    rw [(Lenient.plain_iff hplain).mp hlenient]
    exact hu.map Char.toLower
  · intro h
    refine ⟨_, List.take_prefix (namespaceToText false pre).toList.length _,
      (Lenient.plain_iff hplain).mpr ?_⟩
    have htake := List.prefix_iff_eq_take.mp h
    rwa [List.length_map, ← List.map_take] at htake

-- Whether search takes a namespace, label by label.
theorem beginsLike_plain {pre ns : Namespace} (hns : ∀ l ∈ ns, '.' ∉ l.toList)
    (hpre : ∀ l ∈ pre, '.' ∉ l.toList ∧ '%' ∉ l.toList ∧ '_' ∉ l.toList) (hne : ns ≠ []) :
    SqliteStore.BeginsLike pre ns ↔ BeginsFolded pre ns := by
  rw [beginsLike_folded (fun l hl => (hpre l hl).2)]
  induction pre generalizing ns with
  | nil => exact iff_of_true List.nil_prefix trivial
  | cons p pre ih =>
    have hp := dot_not_folded (hpre p List.mem_cons_self).1
    have hrest (l : String) (hl : l ∈ pre) := hpre l (List.mem_cons_of_mem p hl)
    have hlabel (l : String) : namespaceToText false [l] = l := by simp [text_singleton]
    have htext (l : String) {ms : Namespace} (hms : ms ≠ []) :
        (namespaceToText false (l :: ms)).toList.map Char.toLower =
          l.toList.map Char.toLower ++ '.' :: (namespaceToText false ms).toList.map Char.toLower := by
      have happend := toList_text_append false (List.cons_ne_nil l []) hms
      rw [List.singleton_append, hlabel] at happend
      rw [happend, List.map_append, List.map_cons]
      rfl
    cases ns with
    | nil => exact absurd rfl hne
    | cons k ns =>
      have hk := dot_not_folded (hns k List.mem_cons_self)
      have hkeys (l : String) (hl : l ∈ ns) := hns l (List.mem_cons_of_mem k hl)
      cases pre with
      | nil =>
        rw [hlabel, BeginsFolded]
        by_cases hnil : ns = []
        · rw [hnil, hlabel]
        · rw [htext k hnil, prefix_before hp]
      | cons q pre =>
        rw [htext p (List.cons_ne_nil q pre), BeginsFolded]
        by_cases hnil : ns = []
        · rw [hnil, hlabel]
          have hempty : ¬ BeginsFolded (q :: pre) [] := by cases pre <;> exact id
          refine iff_of_false (fun h => ?_) (fun h => hempty h.2)
          exact hk (h.subset (List.mem_append_right _ List.mem_cons_self))
        · rw [htext k hnil, prefix_across hp hk, ih hkeys hrest hnil]
        · exact List.cons_ne_nil q pre

end Plain

section Exactness

theorem fitsLike_of_doesMatch {c : MatchCondition} {ns : Namespace} (h : doesMatch c ns = true) :
    SqliteStore.FitsLike c ns := by
  obtain ⟨matchType, path⟩ := c
  unfold doesMatch at h
  split at h
  · cases h
  · rename_i hlen
    have hlen' : path.length ≤ ns.length := Nat.not_lt.mp hlen
    cases matchType with
    | leading =>
      exact ⟨_, text_prefix (List.take_prefix path.length ns),
        lenient_of_labelsMatch (List.length_take_of_le hlen') (labelsMatch_take h)⟩
    | trailing =>
      have hdrop : (ns.reverse.take path.length).reverse <:+ ns := by
        rw [← List.reverse_prefix, List.reverse_reverse]
        exact List.take_prefix _ _
      have hlength : (ns.reverse.take path.length).length = path.length :=
        List.length_take_of_le (by rwa [List.length_reverse])
      have htake : labelsMatch (ns.reverse.take path.length) path.reverse = true := by
        have htake := labelsMatch_take h
        rwa [List.length_reverse] at htake
      have hmatch := labelsMatch_reverse (by rwa [List.length_reverse]) htake
      rw [List.reverse_reverse] at hmatch
      exact ⟨_, text_suffix hdrop,
        lenient_of_labelsMatch (by rwa [List.length_reverse]) hmatch⟩

theorem like_condition_iff {c : MatchCondition} {ns : Namespace} :
    like (SqliteStore.conditionPattern c) (namespaceToText false ns).toList = true ↔
      SqliteStore.FitsLike c ns := by
  obtain ⟨matchType, path⟩ := c
  rw [like_iff_lenient]
  cases matchType with
  | leading => exact Lenient.append_percent_iff
  | trailing => exact Lenient.percent_append_iff

variable (items : List (StoredNamespace × String))

def rowsOf : List StoreRow := items.map (fun i => SqliteStore.insertRow i.1 i.2)

theorem mem_search {pre ns : Namespace} {key : String} :
    (ns, key) ∈ SqliteStore.search (rowsOf items) pre ↔
      ∃ i ∈ items, SqliteStore.BeginsLike pre i.1.labels ∧ i.1.labels = ns ∧ i.2 = key := by
  simp only [SqliteStore.search, SqliteStore.searchPattern, rowsOf, List.mem_map,
    List.mem_filter, like_iff_lenient, Lenient.append_percent_iff]
  constructor
  · rintro ⟨r, ⟨⟨i, hi, rfl⟩, hlike⟩, heq⟩
    obtain ⟨hns, hkey⟩ := Prod.mk.inj heq
    exact ⟨i, hi, hlike, (decodeNsText_text i.1).symm.trans hns, hkey⟩
  · rintro ⟨i, hi, hlike, rfl, rfl⟩
    exact ⟨_, ⟨⟨i, hi, rfl⟩, hlike⟩, by
      rw [SqliteStore.insertRow, decodeNsText_text i.1]⟩

theorem mem_listNamespaces {conditions : List MatchCondition} {ns : Namespace} :
    ns ∈ SqliteStore.listNamespaces (rowsOf items) conditions ↔
      ∃ i ∈ items, (∀ c ∈ conditions, SqliteStore.FitsLike c i.1.labels) ∧ i.1.labels = ns := by
  simp only [SqliteStore.listNamespaces, rowsOf, List.mem_map, List.mem_dedup, List.mem_filter,
    List.all_eq_true]
  constructor
  · rintro ⟨t, ⟨⟨r, ⟨i, hi, rfl⟩, rfl⟩, hall⟩, rfl⟩
    exact ⟨i, hi, fun c hc => like_condition_iff.mp (hall c hc), (decodeNsText_text i.1).symm⟩
  · rintro ⟨i, hi, hall, rfl⟩
    exact ⟨_, ⟨⟨_, ⟨i, hi, rfl⟩, rfl⟩, fun c hc => like_condition_iff.mpr (hall c hc)⟩,
      decodeNsText_text i.1⟩

-- Search keeps to the prefix, and the conditions are those of the in-memory store.
def Isolated (pre : Namespace) (conditions : List MatchCondition) : Prop :=
  (∀ found ∈ SqliteStore.search (rowsOf items) pre, pre <+: found.1) ∧
    ∀ ns, ns ∈ SqliteStore.listNamespaces (rowsOf items) conditions ↔
      (∃ i ∈ items, i.1.labels = ns) ∧ ∀ c ∈ conditions, doesMatch c ns = true

theorem isolated_iff (pre : Namespace) (conditions : List MatchCondition) :
    Isolated items pre conditions ↔ ∀ i ∈ items,
      (SqliteStore.BeginsLike pre i.1.labels → pre <+: i.1.labels) ∧
        ((∀ c ∈ conditions, SqliteStore.FitsLike c i.1.labels) →
          ∀ c ∈ conditions, doesMatch c i.1.labels = true) := by
  constructor
  · rintro ⟨hsearch, hlist⟩ i hi
    refine ⟨fun hlike => ?_, fun hall => ?_⟩
    · exact hsearch (i.1.labels, i.2) ((mem_search items).mpr ⟨i, hi, hlike, rfl, rfl⟩)
    · exact ((hlist i.1.labels).mp ((mem_listNamespaces items).mpr ⟨i, hi, hall, rfl⟩)).2
  · intro h
    refine ⟨fun found hfound => ?_, fun ns => ?_⟩
    · obtain ⟨i, hi, hlike, hns, -⟩ := (mem_search items).mp hfound
      rw [← hns]
      exact (h i hi).1 hlike
    · rw [mem_listNamespaces]
      constructor
      · rintro ⟨i, hi, hall, rfl⟩
        exact ⟨⟨i, hi, rfl⟩, (h i hi).2 hall⟩
      · rintro ⟨⟨i, hi, rfl⟩, hall⟩
        exact ⟨i, hi, fun c hc => fitsLike_of_doesMatch (hall c hc), rfl⟩

end Exactness

def userOne : StoredNamespace := ⟨["user", "1"], by simp, by simp⟩

def userTen : StoredNamespace := ⟨["user", "10"], by simp, by simp⟩

-- The items of user 10 are found under user 1.
theorem other_user_found :
    SqliteStore.search (rowsOf [(userOne, "a"), (userTen, "b")]) ["user", "1"] =
        [(["user", "1"], "a"), (["user", "10"], "b")] ∧
      ¬ ∀ (items : List (StoredNamespace × String)) (pre : Namespace)
        (conditions : List MatchCondition), Isolated items pre conditions := by
  have hfound : SqliteStore.search (rowsOf [(userOne, "a"), (userTen, "b")]) ["user", "1"] =
      [(["user", "1"], "a"), (["user", "10"], "b")] := by decide +kernel
  refine ⟨hfound, fun hall => ?_⟩
  have hpre := (hall [(userOne, "a"), (userTen, "b")] ["user", "1"] []).1 (["user", "10"], "b")
    (by rw [hfound]; exact List.mem_cons_of_mem _ List.mem_cons_self)
  exact absurd hpre (by decide)

end Store

end LangGraph
