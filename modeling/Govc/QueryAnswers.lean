import Govc.QueryEngine

/-!
# The answers of the query engine

Every entry of the cache was made by an earlier call.  If no rebuild has come
since, it stands: it is an answer of the evaluation of its request, also after
its shared array has been sorted again.  A hit is therefore an answer of the
evaluation of the present request as long as both requests are the same.
-/

namespace Govc

open Go Runs

/-! ## What the cache holds -/

namespace QueryCache

/-- Every entry satisfies a condition on its key, its result and the time it
was made. -/
def Holds (qc : QueryCache) (P : GoString → StoredResult → ℤ → Prop) : Prop :=
  ∀ key entry, qc.cache.lookup key = some entry → P key entry.result entry.createdAt

variable {P : GoString → StoredResult → ℤ → Prop} {qc : QueryCache}

variable (hqc : qc.Holds P)

include hqc

theorem Holds.live (hlive : qc.live now key = some entry) :
    P key entry.result entry.createdAt ∧ now - entry.createdAt ≤ qc.ttl := by
  rw [QueryCache.live, Option.filter_eq_some_iff] at hlive
  exact ⟨hqc key entry hlive.1, by simpa using hlive.2⟩

theorem Holds.get (now : ℤ) (key : GoString) : (qc.get now key).2.Holds P := by
  unfold QueryCache.get
  cases hlive : qc.live now key with
  | none => exact hqc
  | some entry =>
    exact GoMap.forall_insert hqc (hqc.live hlive).1

theorem Holds.evictLRU (order : RangeOrder) : (qc.evictLRU order).Holds P := by
  unfold QueryCache.evictLRU
  split_ifs with hfound
  · exact fun key entry hkey => hqc key entry (GoMap.lookup_of_erase hkey)
  · exact hqc

theorem Holds.makeRoom (order : RangeOrder) : (qc.makeRoom order).Holds P := by
  unfold QueryCache.makeRoom
  split_ifs with hfull
  · exact hqc.evictLRU order
  · exact hqc

theorem Holds.set (order : RangeOrder) (hnew : P key result now) :
    (qc.set order now key result).Holds P :=
  GoMap.forall_insert (hqc.makeRoom order) hnew

theorem Holds.cleanup (order : RangeOrder) (now : ℤ) : (qc.cleanup order now).Holds P := by
  have hfold : ∀ (items : List (GoString × CacheEntry))
      (cache : GoMap GoString CacheEntry) key entry,
      (items.foldl (fun cache item =>
        if qc.ttl < now - item.2.createdAt then cache.erase item.1 else cache)
        cache).lookup key = some entry → cache.lookup key = some entry := by
    intro items
    induction items with
    | nil => exact fun _ _ _ hkept => hkept
    | cons item items ih =>
      intro cache key entry hkept
      have hfirst := ih _ key entry hkept
      dsimp only at hfirst
      split_ifs at hfirst with hexpired
      · exact GoMap.lookup_of_erase hfirst
      · exact hfirst
  intro key entry hkey
  exact hqc key entry (hfold _ _ key entry hkey)

theorem Holds.mono (himp : ∀ key result made, P key result made → Q key result made) : qc.Holds Q :=
  fun key entry hkey => himp _ _ _ (hqc key entry hkey)

end QueryCache

namespace QueryEngine

variable {host : QueryHost} {engine : QueryEngine}

/-- A stored answer is one of the evaluation of its request.  If its files are
shared, the array is that of its pattern, sorted as the request asks. -/
def Stands (host : QueryHost) (engine : QueryEngine) (req : QueryRequest)
    (result : StoredResult) : Prop :=
  match result.files with
  | .own files =>
    Evaluates host engine.indexes req (.ok ⟨files, result.commits, result.total⟩)
  | .shared array page =>
    req.IsPattern ∧ engine.patternIndex.lookup req.query = some array ∧ result.commits = [] ∧
      ∃ files, Matched host engine.indexes.files req.query files ∧
        engine.arrays[array]? = some (sortFiles host req files) ∧
        result.total = files.length ∧
        ∃ rest, req.pages files.length 0 = some (page, rest)

theorem page_of_nil {α : Type} {page : Page} : page.of ([] : List α) = [] := by
  simp [Page.of]

theorem sortCommits_nil : sortCommits host req [] = [] := by
  unfold sortCommits
  cases CommitKey.named req.sortBy with
  | none => rfl
  | some key => exact List.perm_nil.mp (host.sorter.perm _ [])

variable {req : QueryRequest}

theorem Stands.evaluates (hresult : Stands host engine req result) :
    Evaluates host engine.indexes req (.ok (result.read engine.arrays)) := by
  obtain ⟨files, commits, total⟩ := result
  cases files with
  | own files => exact hresult
  | shared array page =>
    obtain ⟨htype, -, hcommits, files, hfiles, harray, htotal, rest, hpage⟩ := hresult
    subst hcommits htotal
    have hevaluates := evaluates_of_matched htype hfiles
    simpa [applySortingAndPagination, QueryResult.ofFiles, hpage,
      sortCommits_nil, page_of_nil, StoredResult.read, FileSlice.read,
      harray] using hevaluates

/-- The arrays of the pattern index hold the files that match, each array
those of one pattern. -/
structure PatternsMatch (host : QueryHost) (engine : QueryEngine) : Prop where
  matched : ∀ query array, engine.patternIndex.lookup query = some array →
    ∃ files, engine.arrays[array]? = some files ∧ Matched host engine.indexes.files query files
  apart : ∀ query other array, engine.patternIndex.lookup query = some array →
    engine.patternIndex.lookup other = some array → query = other

structure Keeps (host : QueryHost) (req : QueryRequest)
    (engine after : QueryEngine) : Prop where
  indexes : after.indexes = engine.indexes
  queryCache : after.queryCache = engine.queryCache
  patterns : PatternsMatch host after
  stands : ∀ earlier result, QueryRun.SortAlike earlier req →
    Stands host engine earlier result → Stands host after earlier result

theorem PatternsMatch.keeps_refl (hengine : PatternsMatch host engine)
    (req : QueryRequest) : Keeps host req engine engine :=
  ⟨rfl, rfl, hengine, fun _ _ _ hresult => hresult⟩

variable {after : QueryEngine}

theorem Keeps.trans (hfirst : Keeps host req engine middle)
    (hsecond : Keeps host req middle after) : Keeps host req engine after where
  indexes := hsecond.indexes.trans hfirst.indexes
  queryCache := hsecond.queryCache.trans hfirst.queryCache
  patterns := hsecond.patterns
  stands earlier result halike hresult :=
    hsecond.stands earlier result halike (hfirst.stands earlier result halike hresult)

theorem PatternsMatch.keeps_insert (hengine : PatternsMatch host engine) {req : QueryRequest}
    (hnew : engine.patternIndex.lookup req.query = none)
    (hfiles : Matched host engine.indexes.files req.query files) :
    Keeps host req engine
      { engine with
        arrays := engine.arrays ++ [files]
        patternIndex := engine.patternIndex.insert req.query engine.arrays.length } := by
  have hold : ∀ (array : ℕ) (cells : List FileEntry), engine.arrays[array]? = some cells →
      (engine.arrays ++ [files])[array]? = some cells := by
    intro array cells hcells
    rw [List.getElem?_append_left (List.getElem?_eq_some_iff.mp hcells).1]
    exact hcells
  have hfresh : ∀ query, engine.patternIndex.lookup query ≠ some engine.arrays.length := by
    intro query hquery
    obtain ⟨cells, hcells, -⟩ := hengine.matched query _ hquery
    simp at hcells
  refine ⟨rfl, rfl, ⟨?_, ?_⟩, ?_⟩
  · apply GoMap.forall_insert
    · intro query array hquery
      obtain ⟨cells, hcells, hmatched⟩ := hengine.matched query array hquery
      exact ⟨cells, hold array cells hcells, hmatched⟩
    · exact ⟨files, by simp, hfiles⟩
  · intro query other array hquery hother
    rw [GoMap.lookup_insert_eq] at hquery hother
    split_ifs at hquery hother with hsame hsame' hsame'
    · exact hsame.trans hsame'.symm
    · cases hquery
      exact absurd hother (hfresh other)
    · cases hother
      exact absurd hquery (hfresh query)
    · exact hengine.apart query other array hquery hother
  · intro earlier result _ hresult
    obtain ⟨slice, commits, total⟩ := result
    cases slice with
    | own own => exact hresult
    | shared array page =>
      obtain ⟨htype, hquery, hcommits, cells, hmatched, harray, hrest⟩ := hresult
      refine ⟨htype, ?_, hcommits, cells, hmatched, hold array _ harray, hrest⟩
      rw [GoMap.lookup_insert_eq, if_neg]
      · exact hquery
      · intro hsame
        rw [hsame, hnew] at hquery
        cases hquery

/-- Matching files that one request has sorted and a second one that sorts
alike sorts again are as the first one alone could have left them. -/
theorem exists_sorted_alike {index : FileIndex} {query : GoString}
    (hfiles : Matched host index query files)
    (halike : ∀ ordering other, earlier.fileOrdering = some ordering →
      req.fileOrdering = some other → ordering = other) :
    ∃ before, Matched host index query before ∧
      sortFiles host req (sortFiles host earlier files) =
        sortFiles host earlier before ∧ before.length = files.length := by
  have hearlier := sortFiles_perm host earlier files
  have hboth := (sortFiles_perm host req _).trans hearlier
  cases hordering : earlier.fileOrdering with
  | none =>
    refine ⟨_, hfiles.perm hboth, ?_, hboth.length_eq⟩
    rw [sortFiles, sortFiles, sortFiles, hordering]
  | some ordering =>
    cases hother : req.fileOrdering with
    | none =>
      refine ⟨files, hfiles, ?_, rfl⟩
      rw [sortFiles, hother]
    | some other =>
      have hsame : req.fileOrdering = earlier.fileOrdering := by
        rw [hother, hordering, halike ordering other hordering hother]
      refine ⟨_, hfiles.perm hearlier, ?_, hearlier.length_eq⟩
      simp only [sortFiles, hsame]

theorem PatternsMatch.keeps_sortArray (hengine : PatternsMatch host engine) (htype : req.IsPattern)
    (harray : engine.patternIndex.lookup req.query = some array) :
    Keeps host req engine (engine.sortArray host req array) := by
  obtain ⟨files, hcells, hmatched⟩ := hengine.matched req.query array harray
  have hsorted : (engine.arrays.modify array (sortFiles host req))[array]? =
      some (sortFiles host req files) := by
    simp [hcells]
  have hother : ∀ other, other ≠ array →
      (engine.arrays.modify array (sortFiles host req))[other]? = engine.arrays[other]? := by
    intro other hne
    simp [hne.symm]
  have hperm := sortFiles_perm host req files
  refine ⟨rfl, rfl, ⟨?_, hengine.apart⟩, ?_⟩
  · intro query other hquery
    by_cases hsame : other = array
    · subst hsame
      rw [hengine.apart query req.query other hquery harray]
      exact ⟨_, hsorted, hmatched.perm hperm⟩
    · obtain ⟨cells, hfound, hcells'⟩ := hengine.matched query other hquery
      exact ⟨cells, (hother other hsame).trans hfound, hcells'⟩
  · intro earlier result halike hresult
    obtain ⟨slice, commits, total⟩ := result
    cases slice with
    | own own => exact hresult
    | shared other page =>
      obtain ⟨hearlier, hquery, hcommits, cells, hfound, hshown, htotal, hpage⟩ := hresult
      by_cases hsame : other = array
      · subst hsame
        have hname := hengine.apart earlier.query req.query other hquery harray
        have hfiles : files = sortFiles host earlier cells :=
          Option.some.inj (hcells.symm.trans hshown)
        obtain ⟨before, hbefore, heq, hlength⟩ :=
          exists_sorted_alike hfound (halike hearlier htype hname)
        refine ⟨hearlier, hquery, hcommits, before, hbefore, ?_,
          htotal.trans hlength.symm, hlength ▸ hpage⟩
        rw [← heq, ← hfiles]
        exact hsorted
      · exact ⟨hearlier, hquery, hcommits, cells, hfound,
          (hother other hsame).trans hshown, htotal, hpage⟩

theorem Keeps.patternArray (hengine : PatternsMatch host engine)
    (order : RangeOrder) (req : QueryRequest) :
    Keeps host req engine (engine.patternArray host order req.query).2 ∧
      ∀ array, (engine.patternArray host order req.query).1 = some array →
        (engine.patternArray host order req.query).2.patternIndex.lookup
          req.query = some array := by
  unfold QueryEngine.patternArray
  cases hold : engine.patternIndex.lookup req.query with
  | some array =>
    refine ⟨hengine.keeps_refl req, ?_⟩
    rintro _ ⟨⟩
    exact hold
  | none =>
    dsimp only
    split_ifs with hsize
    · refine ⟨hengine.keeps_insert hold ⟨order, rfl⟩, ?_⟩
      simp
    · exact ⟨hengine.keeps_refl req, by simp⟩

/-- An evaluation gives an answer of its request and keeps the stored
answers to requests that sort alike. -/
structure Evaluated (host : QueryHost) (req : QueryRequest)
    (engine : QueryEngine) (outcome : Outcome StoredResult)
    (after : QueryEngine) : Prop where
  keeps : Keeps host req engine after
  stored : ∀ result, outcome = .ok result → Stands host after req result
  answer : Evaluates host engine.indexes req
    (outcome >>= fun result => .ok (result.read after.arrays))

theorem evaluated_finishShared (hengine : PatternsMatch host engine) (htype : req.IsPattern)
    (harray : engine.patternIndex.lookup req.query = some array) :
    Evaluated host req engine (engine.finishShared host req array).1
      (engine.finishShared host req array).2 := by
  have hkeeps := hengine.keeps_sortArray htype harray
  obtain ⟨files, hcells, hmatched⟩ := hengine.matched req.query array harray
  have hsorted : (engine.sortArray host req array).arrays[array]? =
      some (sortFiles host req files) := by
    simp [sortArray, hcells]
  have hevaluates := evaluates_of_matched htype hmatched
  simp only [applySortingAndPagination, QueryResult.ofFiles, List.length_nil] at hevaluates
  simp only [finishShared, hcells, Option.getD_some]
  cases hpages : req.pages files.length 0 with
  | none =>
    rw [hpages] at hevaluates
    exact ⟨hkeeps, by simp, hevaluates⟩
  | some pages =>
    have hstands : Stands host (engine.sortArray host req array) req
        ⟨.shared array pages.1, [], files.length⟩ :=
      ⟨htype, harray, rfl, files, hmatched, hsorted, rfl, pages.2, hpages⟩
    refine ⟨hkeeps, ?_, hstands.evaluates⟩
    rintro _ ⟨⟩
    exact hstands

variable {call : QueryCall}

theorem Keeps.evaluated_direct (hkeeps : Keeps host call.request engine after) :
    Evaluated host call.request engine
      (evaluate host call.orders engine.indexes call.request >>= fun result =>
        .ok ⟨.own result.files, result.commits, result.total⟩) after := by
  refine ⟨hkeeps, ?_, call.orders, ?_⟩
  · intro stored hstored
    obtain ⟨result, hresult, hown⟩ := Outcome.ok_of_bind hstored
    cases hown
    change Evaluates host after.indexes _ _
    rw [hkeeps.indexes]
    exact ⟨call.orders, hresult⟩
  · cases evaluate host call.orders engine.indexes call.request <;> rfl

theorem PatternsMatch.evaluated_evaluateCall
    (hengine : PatternsMatch host engine) (call : QueryCall) :
    Evaluated host call.request engine (engine.evaluateCall host call).1
      (engine.evaluateCall host call).2 := by
  have hpattern := Keeps.patternArray hengine call.orders.entries call.request
  unfold QueryEngine.evaluateCall
  split_ifs with htype
  · generalize engine.patternArray host call.orders.entries call.request.query = found at hpattern
    obtain ⟨array, middle⟩ := found
    obtain ⟨hkeeps, harray⟩ := hpattern
    cases array with
    | none => exact hkeeps.evaluated_direct
    | some array =>
      have hfinish := evaluated_finishShared hkeeps.patterns htype (harray array rfl)
      refine ⟨hkeeps.trans hfinish.keeps, hfinish.stored, ?_⟩
      rw [← hkeeps.indexes]
      exact hfinish.answer
  · exact (hengine.keeps_refl call.request).evaluated_direct

theorem query_of_live (hlive : engine.queryCache.live call.now call.key = some entry) :
    engine.query host call = (.ok (entry.result.read engine.arrays),
      { engine with
        queryCache := (engine.queryCache.get call.now call.key).2 }) := by
  simp [QueryEngine.query, QueryCache.get, hlive]

theorem query_of_not_live (hlive : engine.queryCache.live call.now call.key = none) :
    engine.query host call =
      ((engine.evaluateCall host call).1 >>= fun result =>
          .ok (result.read (engine.evaluateCall host call).2.arrays),
        match (engine.evaluateCall host call).1 with
        | .ok result =>
          { (engine.evaluateCall host call).2 with
            queryCache := (engine.evaluateCall host call).2.queryCache.set
              call.cacheOrder call.done call.key result }
        | _ => (engine.evaluateCall host call).2) := by
  have hget : engine.queryCache.get call.now call.key = (none, engine.queryCache) := by
    simp [QueryCache.get, hlive]
  unfold QueryEngine.query
  rw [hget]
  generalize engine.evaluateCall host call = evaluated
  obtain ⟨outcome, after⟩ := evaluated
  cases outcome <;> rfl

/-! ## Rebuilds keep the cache -/

/-- A rebuild leaves the cache and the arrays; the pattern index is cleared
or still fits. -/
structure Rebuilt (engine after : QueryEngine) : Prop where
  queryCache : after.queryCache = engine.queryCache
  arrays : after.arrays = engine.arrays
  patterns : after.patternIndex = ∅ ∨
    after.patternIndex = engine.patternIndex ∧ after.indexes.files = engine.indexes.files

theorem rebuilt_refl : Rebuilt engine engine := ⟨rfl, rfl, .inr ⟨rfl, rfl⟩⟩

theorem Rebuilt.trans (hfirst : Rebuilt engine middle) (hsecond : Rebuilt middle after) :
    Rebuilt engine after where
  queryCache := hsecond.queryCache.trans hfirst.queryCache
  arrays := hsecond.arrays.trans hfirst.arrays
  patterns := by
    rcases hsecond.patterns with hclear | ⟨hindex, hfiles⟩
    · exact .inl hclear
    · rw [hindex, hfiles]
      exact hfirst.patterns

theorem rebuilt_replaceFileIndex
    {engine : QueryEngine} : Rebuilt engine (engine.replaceFileIndex host view) :=
  ⟨rfl, rfl, .inl rfl⟩

theorem rebuilt_replaceCommitIndex {engine : QueryEngine} :
    Rebuilt engine (engine.replaceCommitIndex host view) := by
  unfold replaceCommitIndex
  cases rebuildCommitIndex host view with
  | none => exact rebuilt_refl
  | some commits => exact ⟨rfl, rfl, .inr ⟨rfl, rfl⟩⟩

theorem rebuilt_replaceContentIndex {engine : QueryEngine} :
    Rebuilt engine (engine.replaceContentIndex host view) :=
  ⟨rfl, rfl, .inr ⟨rfl, rfl⟩⟩

theorem rebuilt_rebuildAllIndexes {engine : QueryEngine} :
    Rebuilt engine (engine.rebuildAllIndexes host view) :=
  (rebuilt_replaceFileIndex.trans (rebuilt_replaceCommitIndex)).trans (rebuilt_replaceContentIndex)

theorem Rebuilt.ite (p : Prop) [Decidable p] (h : Rebuilt engine after) :
    Rebuilt engine (if p then after else engine) := by
  split_ifs with hp
  · exact h
  · exact rebuilt_refl

theorem rebuilt_updateIndexes {engine : QueryEngine} :
    Rebuilt engine (engine.updateIndexes host now view) :=
  ((rebuilt_replaceFileIndex.ite _).trans (rebuilt_replaceCommitIndex.ite _)).trans
    (rebuilt_replaceContentIndex.ite _)

theorem Rebuilt.patternsMatch (h : Rebuilt engine after) (hengine : PatternsMatch host engine) :
    PatternsMatch host after := by
  obtain ⟨-, harrays, hclear | ⟨hindex, hfiles⟩⟩ := h
  · constructor
    · intro query array hquery
      simp [hclear] at hquery
    · intro query other array hquery
      simp [hclear] at hquery
  · constructor
    · rw [hindex, harrays, hfiles]
      exact hengine.matched
    · rw [hindex]
      exact hengine.apart

end QueryEngine

namespace QueryRun

open QueryEngine

variable {host : QueryHost} {run : QueryRun}

/-- The entry was made by an earlier call; if that was after the last rebuild,
it stands. -/
def Made (host : QueryHost) (run : QueryRun) (key : GoString)
    (result : StoredResult) (made : ℤ) : Prop :=
  ∃ earlier : QueryCall, earlier.key = key ∧ made = earlier.done ∧
    (earlier ∈ run.older ∨ earlier ∈ run.recent ∧ Stands host run.engine earlier.request result)

structure Good (host : QueryHost) (run : QueryRun) : Prop where
  patterns : PatternsMatch host run.engine
  cached : run.engine.queryCache.Holds (run.Made host)

theorem good_start : Good host (start now) where
  patterns := by
    constructor
    · intro query array hquery
      simp [start, QueryEngine.new] at hquery
    · intro query other array hquery
      simp [start, QueryEngine.new] at hquery
  cached := by
    intro key entry hkey
    simp [start, QueryEngine.new, QueryCache.new] at hkey

section

variable (hrun : Good host run)

include hrun

theorem Good.rebuild (hrebuilt : Rebuilt run.engine after) :
    Good host ⟨after, run.older ++ run.recent, []⟩ where
  patterns := hrebuilt.patternsMatch hrun.patterns
  cached := by
    dsimp only
    rw [hrebuilt.queryCache]
    refine hrun.cached.mono ?_
    rintro key result made ⟨earlier, hkey, hmade, hearlier⟩
    refine ⟨earlier, hkey, hmade, .inl ?_⟩
    rcases hearlier with holder | ⟨hrecent, -⟩
    · exact List.mem_append_left _ holder
    · exact List.mem_append_right _ hrecent

variable {call : QueryCall}

theorem Good.maker (hcall : run.Undisturbed call)
    (hlive : run.engine.queryCache.live call.now call.key = some entry) :
    ∃ earlier ∈ run.recent, earlier.key = call.key ∧ entry.createdAt = earlier.done ∧
      SameRequest earlier.request call.request ∧
      Stands host run.engine earlier.request entry.result := by
  obtain ⟨⟨earlier, hkey, hmade, hearlier⟩, hage⟩ := hrun.cached.live hlive
  rcases hearlier with holder | ⟨hrecent, hstands⟩
  · have hexpired := hcall.current earlier holder hkey
    omega
  · rcases hcall.same earlier hrecent hkey with hsame | hexpired
    · exact ⟨earlier, hrecent, hkey, hmade, hsame, hstands⟩
    · omega

theorem Good.answered (hcall : run.Undisturbed call) : run.Answered host call where
  current := by
    cases hlive : run.engine.queryCache.live call.now call.key with
    | none =>
      rw [query_of_not_live hlive]
      exact (hrun.patterns.evaluated_evaluateCall call).answer
    | some entry =>
      obtain ⟨earlier, -, -, -, hsame, hstands⟩ := hrun.maker hcall hlive
      rw [query_of_live hlive, ← evaluates_congr hsame]
      exact hstands.evaluates
  own := by
    intro entry hlive
    obtain ⟨earlier, hrecent, hkey, hmade, hsame, -⟩ := hrun.maker hcall hlive
    exact ⟨earlier, hrecent, hkey, hmade, evaluates_congr hsame⟩

theorem Good.query_hit (hlive : run.engine.queryCache.live call.now call.key = some entry) :
    Good host (run.step host (.query call)) := by
  have hhits : run.Hits call := by simp [Hits, hlive]
  rw [step, if_pos hhits, query_of_live hlive]
  exact ⟨⟨hrun.patterns.matched, hrun.patterns.apart⟩, hrun.cached.get call.now call.key⟩

theorem Good.query_miss (hcall : run.Undisturbed call)
    (hlive : run.engine.queryCache.live call.now call.key = none) :
    Good host (run.step host (.query call)) := by
  have hmiss : ¬run.Hits call := by simp [Hits, hlive]
  have hevaluated := hrun.patterns.evaluated_evaluateCall call
  rw [step, if_neg hmiss, query_of_not_live hlive]
  generalize run.engine.evaluateCall host call = evaluated at hevaluated
  obtain ⟨outcome, after⟩ := evaluated
  -- the entries of before, in the engine after the evaluation
  have hcached : after.queryCache.Holds (Made host ⟨after, run.older, run.recent ++ [call]⟩) := by
    rw [hevaluated.keeps.queryCache]
    refine hrun.cached.mono ?_
    rintro key result made ⟨earlier, hkey, hmade, hearlier⟩
    refine ⟨earlier, hkey, hmade, hearlier.imp_right ?_⟩
    rintro ⟨hrecent, hstands⟩
    exact ⟨List.mem_append_left _ hrecent, hevaluated.keeps.stands _ _
      (hcall.alike earlier hrecent) hstands⟩
  cases outcome with
  | ok result =>
    refine ⟨⟨hevaluated.keeps.patterns.matched, hevaluated.keeps.patterns.apart⟩, ?_⟩
    apply hcached.set call.cacheOrder
    exact ⟨call, rfl, rfl, .inr ⟨by simp, hevaluated.stored result rfl⟩⟩
  | _ => exact ⟨hevaluated.keeps.patterns, hcached⟩

theorem Good.step (hlabel : run.Guard label) : Good host (QueryRun.step host run label) := by
  cases label with
  | rebuildAllIndexes view =>
    exact hrun.rebuild (rebuilt_rebuildAllIndexes)
  | updateIndexes now view =>
    exact hrun.rebuild (rebuilt_updateIndexes)
  | cleanup order now =>
    exact ⟨⟨hrun.patterns.matched, hrun.patterns.apart⟩, hrun.cached.cleanup order now⟩
  | query call =>
    cases hlive : run.engine.queryCache.live call.now call.key with
    | none => exact hrun.query_miss hlabel hlive
    | some entry => exact hrun.query_hit hlive

end

/-- In every run of a new engine that meets the condition, every query gets an
answer of its own evaluation on the indexes present at that time. -/
theorem queries_current (host : QueryHost) (now : ℤ) {steps : List QueryStep}
    (hsteps : Admits (QueryRun.step host) Guard (start now) steps) :
    Admits (QueryRun.step host) (Answers host) (start now) steps := by
  refine hsteps.steps (I := Good host) ?_ ?_ (good_start)
  · intro run label hrun hlabel
    exact hrun.step hlabel
  · intro run label hrun hlabel
    cases label with
    | query call => exact hrun.answered hlabel
    | _ => exact trivial

/-! ## A small engine -/

def plainHost : QueryHost where
  toHost := Host.checksums
  toLower := id
  parseTime := fun _ => .error []
  sorter := .insertion

def stagedView (files : List GoString) : RepoView where
  head := .ok []
  getCommit := fun _ => none
  getTree := fun _ => none
  getBlob := fun _ => some []
  getBlobWithDelta := fun _ => none
  staged := files
  getFileHash := some
  log := some []
  depth := 0
  modified := fun _ => Time.zero
  now := 0
  order := .inserted

def callOf (request : QueryRequest) : QueryCall where
  request := request
  orders := ⟨.inserted, fun _ => .inserted⟩
  filterOrder := .inserted
  cacheOrder := .inserted
  now := 0
  done := 0

def pathRequest (query : GoString) (limit offset : ℤ)
    (sortBy sortOrder : GoString) : QueryRequest :=
  ⟨0, query, ∅, limit, offset, sortBy, sortOrder⟩

def dirRequest (sortOrder : GoString) : QueryRequest :=
  ⟨1, str "d/*", ∅, 1, 0, str "path", sortOrder⟩

theorem mem_recent_query (hearlier : earlier ∈ (run.step host (.query call)).recent) :
    earlier ∈ run.recent ∨ earlier = call := by
  rw [QueryRun.step] at hearlier
  split_ifs at hearlier with hhits
  · exact .inl hearlier
  · simpa using hearlier

theorem queries_current_repeated :
    Admits (QueryRun.step plainHost) (Answers plainHost) (start 0)
      [.rebuildAllIndexes (stagedView [str "a"]), .query (callOf (pathRequest (str "a") 0 0 [] [])),
        .query (callOf (pathRequest (str "a") 0 0 [] []))] := by
  apply queries_current
  refine ⟨trivial, ⟨?_, ?_, ?_⟩, ⟨?_, ?_, ?_⟩, trivial⟩
  · simp [QueryRun.step, start]
  · simp [QueryRun.step, start]
  · simp [QueryRun.step, start]
  · simp [QueryRun.step, start]
  · intro earlier hearlier _
    rcases mem_recent_query hearlier with hnone | rfl
    · simp [QueryRun.step] at hnone
    · exact .inl (.refl _)
  · intro earlier _ _ htype
    exact absurd htype (by decide)

def totalOf (answer : Outcome QueryResult) : Option ℕ := answer.toOption.map QueryResult.total

def pathsOf (answer : Outcome QueryResult) : Option (List GoString) :=
  answer.toOption.map fun result => result.files.map FileEntry.path

def answerAfter (steps : List QueryStep) (request : QueryRequest) : Outcome QueryResult :=
  ((steps.foldl (QueryRun.step plainHost) (start 0)).engine.query plainHost (callOf request)).1

def indexesAfter (steps : List QueryStep) : Indexes :=
  (steps.foldl (QueryRun.step plainHost) (start 0)).engine.indexes

/-- A path that is asked for before and after a rebuild which finds it; two
requests with one key; and one request twice, with one for the reverse order
in between. -/
theorem cached_answers_wrong :
    (totalOf (answerAfter [.query (callOf (pathRequest (str "a") 0 0 [] [])),
        .rebuildAllIndexes (stagedView [str "a"])]
        (pathRequest (str "a") 0 0 [] [])) = some 0 ∧
      ∀ orders, totalOf (evaluate plainHost orders
        (indexesAfter [.query (callOf (pathRequest (str "a") 0 0 [] [])),
          .rebuildAllIndexes (stagedView [str "a"])])
        (pathRequest (str "a") 0 0 [] [])) = some 1) ∧
    (totalOf (answerAfter [.rebuildAllIndexes (stagedView [str "a"]),
        .query (callOf (pathRequest (str "a") 1 2 (str "3") (str ":")))]
        (pathRequest (str "a:1") 2 3 [] [])) = some 1 ∧
      ∀ orders, totalOf (evaluate plainHost orders
        (indexesAfter [.rebuildAllIndexes (stagedView [str "a"]),
          .query (callOf (pathRequest (str "a") 1 2 (str "3") (str ":")))])
        (pathRequest (str "a:1") 2 3 [] [])) = some 0) ∧
    pathsOf (answerAfter [.rebuildAllIndexes (stagedView [str "d/a", str "d/b"])]
        (dirRequest [])) = some [str "d/a"] ∧
    pathsOf (answerAfter
        [.rebuildAllIndexes (stagedView [str "d/a", str "d/b"]), .query (callOf (dirRequest [])),
          .query (callOf (dirRequest (str "desc")))]
        (dirRequest [])) = some [str "d/b"] := by
  refine ⟨⟨by decide +kernel, ?_⟩, ⟨by decide +kernel, ?_⟩,
    by decide +kernel, by decide +kernel⟩
  · intro orders
    rw [evaluate_byPath (by decide)]
    decide +kernel
  · intro orders
    rw [evaluate_byPath (by decide)]
    decide +kernel

end QueryRun

end Govc
