import Govc.GoStrings
import Mathlib.Data.List.AList

/-!
# Go maps and the order of `range`

A Go map is a finite map; a `range` statement visits its keys in an order the
program cannot rely on.  That order is an argument here: a `RangeOrder` is
any rearrangement of the keys, so a fact proved for every `RangeOrder` holds
for every run of the loop.
-/

namespace Go

abbrev GoMap (κ ν : Type) := AList fun _ : κ => ν

structure RangeOrder where
  visit : List GoString → List GoString
  perm : ∀ keys, (visit keys).Perm keys

def RangeOrder.inserted : RangeOrder where
  visit := id
  perm := List.Perm.refl

def RangeOrder.giving {keys visited : List GoString}
    (hperm : visited.Perm keys) : RangeOrder where
  visit other := if other = keys then visited else other
  perm := by
    intro other
    by_cases hkeys : other = keys
    · simpa [hkeys] using hperm
    · simp [hkeys]

def RangeOrder.reversed : RangeOrder where
  visit := List.reverse
  perm := List.reverse_perm

namespace GoMap

variable {κ ν : Type} [DecidableEq κ]

def contains (m : GoMap κ ν) (key : κ) : Bool := (m.lookup key).isSome

def range (order : RangeOrder) (m : GoMap GoString ν) : List (GoString × ν) :=
  (order.visit m.keys).filterMap fun key =>
    (m.lookup key).map fun value => (key, value)

theorem lookup_insert_eq (m : GoMap κ ν) (key other : κ) (value : ν) :
    (m.insert key value).lookup other = if other = key then some value else m.lookup other := by
  by_cases heq : other = key
  · subst heq
    simp
  · simp [AList.lookup_insert_ne heq, heq]

theorem lookup_erase_eq {m : GoMap κ ν} {key other : κ} :
    (m.erase key).lookup other = if other = key then none else m.lookup other := by
  by_cases heq : other = key
  · subst heq
    simp
  · simp [AList.lookup_erase_ne heq, heq]

variable {m : GoMap κ ν} {key other : κ} {value found : ν}

theorem lookup_of_erase (hfound : (m.erase key).lookup other = some found) :
    m.lookup other = some found := by
  rw [lookup_erase_eq] at hfound
  split_ifs at hfound
  exact hfound

theorem lookup_insert_cases (hfound : (m.insert key value).lookup other = some found) :
    other = key ∧ found = value ∨ other ≠ key ∧ m.lookup other = some found := by
  rw [lookup_insert_eq] at hfound
  split_ifs at hfound with heq
  · exact .inl ⟨heq, (Option.some.inj hfound).symm⟩
  · exact .inr ⟨heq, hfound⟩

theorem forall_insert {P : κ → ν → Prop}
    (hold : ∀ other found, m.lookup other = some found → P other found)
    (hnew : P key value) :
    ∀ other found, (m.insert key value).lookup other = some found → P other found := by
  intro other found hfound
  rcases lookup_insert_cases hfound with ⟨rfl, rfl⟩ | ⟨-, hfound⟩
  · exact hnew
  · exact hold other found hfound

/-- A symmetric relation between the entries of a map. -/
theorem pairs_insert {P : κ → ν → κ → ν → Prop}
    (hsymm : ∀ a v b w, P a v b w → P b w a v)
    (hnew : ∀ b w, b ≠ key → m.lookup b = some w → P key value b w)
    (hold : ∀ a v b w, a ≠ key → b ≠ key → m.lookup a = some v →
      m.lookup b = some w → a ≠ b → P a v b w) :
    ∀ a v b w, (m.insert key value).lookup a = some v →
      (m.insert key value).lookup b = some w → a ≠ b → P a v b w := by
  intro a v b w ha hb hne
  rcases lookup_insert_cases ha with ⟨rfl, rfl⟩ | ⟨hane, hfirst⟩
  · rcases lookup_insert_cases hb with ⟨rfl, -⟩ | ⟨hbne, hsecond⟩
    · exact absurd rfl hne
    · exact hnew b w hbne hsecond
  · rcases lookup_insert_cases hb with ⟨rfl, rfl⟩ | ⟨hbne, hsecond⟩
    · exact hsymm _ _ _ _ (hnew a v hane hfirst)
    · exact hold a v b w hane hbne hfirst hsecond hne

theorem length_keys_insert {m : GoMap κ ν} (value : ν) (hnew : m.contains key = false) :
    (m.insert key value).keys.length = m.keys.length + 1 := by
  have hmem : key ∉ m := by
    rw [← AList.lookup_isSome]
    simpa [contains] using hnew
  rw [AList.insert_of_notMem hmem]
  rfl

theorem length_keys_erase {m : GoMap κ ν} (hold : m.contains key = true) :
    (m.erase key).keys.length + 1 = m.keys.length := by
  have hmem : key ∈ m.keys := AList.mem_keys.mp (AList.lookup_isSome.mp hold)
  rw [AList.keys_erase, List.length_erase_of_mem hmem]
  have := List.length_pos_of_mem hmem
  omega

variable (order : RangeOrder)

variable (m : GoMap GoString ν)

theorem mem_range (key : GoString) {value : ν} :
    (key, value) ∈ m.range order ↔ m.lookup key = some value := by
  unfold range
  rw [List.mem_filterMap]
  constructor
  · intro hmem
    obtain ⟨k, -, hk⟩ := hmem
    simp only [Option.map_eq_some_iff, Prod.mk.injEq] at hk
    obtain ⟨v, hv, rfl, rfl⟩ := hk
    exact hv
  · intro hlookup
    have hkey : key ∈ m.keys := by
      rw [← AList.mem_keys, ← AList.lookup_isSome, hlookup]
      rfl
    exact ⟨key, (order.perm m.keys).mem_iff.mpr hkey, by simp [hlookup]⟩

theorem range_keys : (m.range order).map Prod.fst = order.visit m.keys := by
  have hvisited : ∀ keys : List GoString, (∀ k ∈ keys, k ∈ m.keys) →
      (keys.filterMap fun key =>
        (m.lookup key).map fun value => (key, value)).map Prod.fst = keys := by
    intro keys hkeys
    induction keys with
    | nil => rfl
    | cons key keys ih =>
      have hkey : (m.lookup key).isSome = true := by
        rw [AList.lookup_isSome, AList.mem_keys]
        exact hkeys key (by simp)
      obtain ⟨value, hvalue⟩ := Option.isSome_iff_exists.mp hkey
      have hrest := ih (fun k hk => hkeys k (List.mem_cons_of_mem key hk))
      simp [hvalue, hrest]
  apply hvisited
  intro k hk
  exact (order.perm m.keys).mem_iff.mp hk

theorem range_keys_nodup : ((m.range order).map Prod.fst).Nodup := by
  rw [range_keys]
  exact (order.perm m.keys).nodup_iff.mpr m.nodupKeys

theorem range_nodup : (m.range order).Nodup := (range_keys_nodup order m).of_map

theorem range_perm {order : RangeOrder} {m m' : GoMap GoString ν}
    (hsame : ∀ key, m'.lookup key = m.lookup key) :
    (m'.range order').Perm (m.range order) := by
  rw [List.perm_ext_iff_of_nodup (range_nodup order' m') (range_nodup order m)]
  intro entry
  rw [mem_range, mem_range, hsame]

variable (m : GoMap GoString ν)

theorem filterMap_keys {entries : List (GoString × ν)}
    (hentries : ∀ entry ∈ entries, m.lookup entry.1 = some entry.2) :
    ((entries.map Prod.fst).filterMap fun key =>
      (m.lookup key).map fun value => (key, value)) = entries := by
  induction entries with
  | nil => rfl
  | cons entry entries ih =>
    have hfirst := hentries entry (by simp)
    have hrest := ih fun other hother => hentries other (by simp [hother])
    simp [hfirst, hrest]

theorem exists_order {order : RangeOrder}
    (hperm : entries.Perm (m.range order)) :
    ∃ order', m.range order' = entries := by
  have hkeys : (entries.map Prod.fst).Perm m.keys := by
    refine (hperm.map Prod.fst).trans ?_
    rw [range_keys]
    exact order.perm m.keys
  refine ⟨.giving hkeys, ?_⟩
  have hvisit : (RangeOrder.giving hkeys).visit m.keys = entries.map Prod.fst := if_pos rfl
  unfold range
  rw [hvisit]
  refine filterMap_keys m fun entry hentry => ?_
  exact (mem_range order m _).mp (hperm.mem_iff.mp hentry)

theorem exists_perm_of_perm_map {α γ : Type} {f : α → γ} {images : List γ}
    {items : List α} (hperm : images.Perm (items.map f)) :
    ∃ moved : List α, moved.Perm items ∧ moved.map f = images := by
  induction images generalizing items with
  | nil =>
    have hnil := hperm.length_eq
    rw [List.length_nil, List.length_map] at hnil
    rw [List.eq_nil_of_length_eq_zero hnil.symm]
    exact ⟨[], List.Perm.refl [], rfl⟩
  | cons image images ih =>
    have hmem := hperm.mem_iff.mp (List.mem_cons_self)
    obtain ⟨item, hitem, rfl⟩ := List.mem_map.mp hmem
    obtain ⟨front, back, rfl⟩ := List.append_of_mem hitem
    have hmiddle : (front ++ item :: back).Perm (item :: (front ++ back)) := List.perm_middle
    obtain ⟨moved, hmoved, hmap⟩ := ih ((List.perm_cons (f item)).mp (hperm.trans (hmiddle.map f)))
    refine ⟨item :: moved, (hmoved.cons item).trans hmiddle.symm, ?_⟩
    rw [List.map_cons, hmap]

theorem exists_order_of_filter {ω : Type}
    {order : RangeOrder} {select : GoString × ν → Bool} {f : GoString × ν → ω}
    {values : List ω}
    (hperm : values.Perm (((m.range order).filter select).map f)) :
    ∃ order', ((m.range order').filter select).map f = values := by
  obtain ⟨selected, hselected, hvalues⟩ := exists_perm_of_perm_map hperm
  have hall : (selected ++ (m.range order).filter fun entry =>
      !select entry).Perm (m.range order) :=
    (hselected.append_right _).trans (List.filter_append_perm select (m.range order))
  obtain ⟨order', horder'⟩ := exists_order m hall
  refine ⟨order', ?_⟩
  have hkept : selected.filter select = selected := by
    apply List.filter_eq_self.mpr
    intro entry hentry
    exact (List.mem_filter.mp (hselected.mem_iff.mp hentry)).2
  rw [horder', List.filter_append, hkept, List.filter_filter, ← hvalues]
  simp

theorem find?_range (key : GoString) :
    (m.range order).find? (fun entry => entry.1 = key) =
      (m.lookup key).map fun value => (key, value) := by
  cases hfound : (m.range order).find? fun entry => entry.1 = key with
  | none =>
    have hnone : m.lookup key = none := by
      by_contra hsome
      obtain ⟨value, hvalue⟩ := Option.ne_none_iff_exists'.mp hsome
      have hmem := (mem_range order m key).mpr hvalue
      simpa using List.find?_eq_none.mp hfound _ hmem
    simp [hnone]
  | some entry =>
    obtain ⟨name, value⟩ := entry
    have hname : name = key := by simpa using List.find?_some hfound
    have hmem := List.mem_of_find?_eq_some hfound
    rw [mem_range, hname] at hmem
    simp [hmem, hname]

theorem lookup_foldl_insert_of_notMem {ν' : Type} (f : ν → ν')
    {entries : List (κ × ν)} {key : κ} (hnew : key ∉ entries.map Prod.fst)
    (m : GoMap κ ν') :
    (entries.foldl (fun m entry => m.insert entry.1 (f entry.2)) m).lookup key = m.lookup key := by
  induction entries generalizing m with
  | nil => rfl
  | cons entry entries ih =>
    rw [List.map_cons, List.mem_cons, not_or] at hnew
    rw [List.foldl_cons, ih hnew.2, AList.lookup_insert_ne hnew.1]

theorem lookup_foldl_insert_of_mem {ν' : Type} (f : ν → ν')
    {entries : List (κ × ν)} (hdistinct : (entries.map Prod.fst).Nodup)
    {key : κ} {value : ν} (hmem : (key, value) ∈ entries) (m : GoMap κ ν') :
    (entries.foldl (fun m entry => m.insert entry.1 (f entry.2)) m).lookup
      key = some (f value) := by
  induction entries generalizing m with
  | nil => cases hmem
  | cons entry entries ih =>
    rw [List.map_cons, List.nodup_cons] at hdistinct
    rw [List.foldl_cons]
    rcases List.mem_cons.mp hmem with rfl | hrest
    · rw [lookup_foldl_insert_of_notMem f hdistinct.1, AList.lookup_insert]
    · exact ih hdistinct.2 hrest _

theorem lookup_foldl_erase {gone : κ → Bool} {keys : List κ} {m : GoMap κ ν} {key : κ} :
    (keys.foldl (fun m key => if gone key then m.erase key else m) m).lookup
      key = if key ∈ keys ∧ gone key = true then none else m.lookup key := by
  induction keys generalizing m with
  | nil => simp
  | cons head rest ih =>
    have hhead : (if gone head then m.erase head else m).lookup key =
        if key = head ∧ gone key = true then none else m.lookup key := by
      by_cases hgone : gone head = true
      · rw [if_pos hgone, lookup_erase_eq]
        by_cases hsame : key = head
        · simp [hsame, hgone]
        · simp [hsame]
      · rw [if_neg hgone, if_neg]
        rintro ⟨rfl, hkey⟩
        exact hgone hkey
    rw [List.foldl_cons, ih, hhead]
    by_cases hkey : gone key = true
    · by_cases hrest : key ∈ rest
      · simp [hkey, hrest]
      · simp [hkey, hrest]
    · simp [hkey]

theorem lookup_erase_where {gone : GoString → Bool} {order : RangeOrder}
    {m : GoMap GoString ν} {key : GoString} :
    ((order.visit m.keys).foldl (fun m key => if gone key then m.erase key else m) m).lookup key =
      if gone key = true then none else m.lookup key := by
  rw [lookup_foldl_erase]
  by_cases hkey : key ∈ order.visit m.keys
  · simp [hkey]
  · have hnone : m.lookup key = none := by
      rw [AList.lookup_eq_none, AList.mem_keys, ← (order.perm m.keys).mem_iff]
      exact hkey
    simp [hkey, hnone]

theorem lookup_copy {ν' : Type} {f : ν → ν'} {order : RangeOrder}
    {m : GoMap GoString ν} {key : GoString} :
    ((m.range order).foldl (fun m entry => m.insert entry.1 (f entry.2))
      (∅ : GoMap GoString ν')).lookup key = (m.lookup key).map f := by
  cases hlookup : m.lookup key with
  | some value =>
    exact lookup_foldl_insert_of_mem f (range_keys_nodup order m)
      ((mem_range order m key).mpr hlookup) ∅
  | none =>
    rw [lookup_foldl_insert_of_notMem]
    · rfl
    · intro hmem
      obtain ⟨⟨found, value⟩, hentry, rfl⟩ := List.mem_map.mp hmem
      rw [mem_range, hlookup] at hentry
      cases hentry

theorem foldl_range_get {τ ω : Type} (get : τ → GoString → ω)
    (step : τ → GoString × ν → τ) (change : GoString × ν → ω → ω)
    (hstep : ∀ t entry key, get (step t entry) key =
      if key = entry.1 then change entry (get t key) else get t key)
    (order : RangeOrder) (m : GoMap GoString ν) (t : τ) (key : GoString) :
    get ((m.range order).foldl step t) key =
      (m.lookup key).elim (get t key) fun value =>
        change (key, value) (get t key) := by
  have hnone : ∀ (entries : List (GoString × ν)) (t : τ), key ∉ entries.map Prod.fst →
      get (entries.foldl step t) key = get t key := by
    intro entries
    induction entries with
    | nil => exact fun _ _ => rfl
    | cons entry rest ih =>
      intro t hkey
      rw [List.map_cons, List.mem_cons, not_or] at hkey
      rw [List.foldl_cons, ih _ hkey.2, hstep, if_neg hkey.1]
  have hsome : ∀ (entries : List (GoString × ν)) (t : τ) (value : ν),
      (entries.map Prod.fst).Nodup → (key, value) ∈ entries →
      get (entries.foldl step t) key = change (key, value) (get t key) := by
    intro entries
    induction entries with
    | nil =>
      intro t value _ hmem
      cases hmem
    | cons entry rest ih =>
      intro t value hdistinct hmem
      rw [List.map_cons, List.nodup_cons] at hdistinct
      rw [List.foldl_cons]
      rcases List.mem_cons.mp hmem with rfl | hrest
      · rw [hnone rest _ hdistinct.1, hstep, if_pos rfl]
      · have hlater : key ∈ rest.map Prod.fst := List.mem_map.mpr ⟨(key, value), hrest, rfl⟩
        have hne : key ≠ entry.1 := by
          rintro rfl
          exact hdistinct.1 hlater
        rw [ih _ value hdistinct.2 hrest, hstep, if_neg hne]
  cases hlookup : m.lookup key with
  | some value =>
    exact hsome _ t value (range_keys_nodup order m) ((mem_range order m key).mpr hlookup)
  | none =>
    apply hnone
    intro hmem
    obtain ⟨⟨found, value⟩, hentry, rfl⟩ := List.mem_map.mp hmem
    rw [mem_range, hlookup] at hentry
    cases hentry

def total (f : ν → ℤ) (m : GoMap κ ν) : ℤ := (m.entries.map fun entry => f entry.2).sum

theorem sum_kerase (f : ν → ℤ) (key : κ) (entries : List (Sigma fun _ : κ => ν)) :
    ((entries.kerase key).map fun entry => f entry.2).sum =
      (entries.map fun entry => f entry.2).sum - (entries.dlookup key).elim 0 f := by
  induction entries with
  | nil => simp
  | cons entry rest ih =>
    obtain ⟨found, value⟩ := entry
    by_cases hsame : key = found
    · subst hsame
      simp
    · rw [List.kerase_cons_ne hsame, List.dlookup_cons_ne _ _ hsame,
        List.map_cons, List.map_cons, List.sum_cons, List.sum_cons, ih]
      omega

theorem total_erase (f : ν → ℤ) (m : GoMap κ ν) (key : κ) :
    total f (m.erase key) = total f m - (m.lookup key).elim 0 f :=
  sum_kerase f key m.entries

theorem total_insert (f : ν → ℤ) (m : GoMap κ ν) (key : κ) (value : ν) :
    total f (m.insert key value) = total f m - (m.lookup key).elim 0 f + f value := by
  have herased := sum_kerase f key m.entries
  unfold total
  rw [AList.entries_insert, List.map_cons, List.sum_cons, herased]
  change f value + _ = _
  unfold AList.lookup
  omega

end GoMap

end Go
