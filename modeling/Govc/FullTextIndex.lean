import Govc.GoMaps

/-!
# The full-text index

`IndexDocument` keeps four maps and a counter in step; a path that is indexed
again is first taken out of all of them.  What the maps say of one token is a
`Posting`, and the loops change each token's posting once and on its own.
-/

namespace Govc

open Go GoMap

structure SearchDocument where
  path : GoString
  content : GoString
  tokenCount : ℕ
  tokens : GoMap GoString ℤ

structure FullTextIndex where
  documentIndex : GoMap GoString SearchDocument
  tokenIndex : GoMap GoString (List GoString)
  termFrequency : GoMap GoString (GoMap GoString ℤ)
  documentFreq : GoMap GoString ℤ
  totalDocuments : ℤ

/-! ## Tokens -/

/-- The class `[\w\-\.]` of the regular expression. -/
def isWordByte (b : UInt8) : Bool :=
  (97 ≤ b && b ≤ 122) || (65 ≤ b && b ≤ 90) || (48 ≤ b && b ≤ 57) || b = 95 || b = 45 || b = 46

/-- `Split` at the runs of other bytes. -/
def splitWords : GoString → List GoString
  | [] => [[]]
  | b :: rest =>
    match splitWords rest with
    | [] => []
    | word :: words =>
      if isWordByte b then (b :: word) :: words
      else if (rest.head?.map isWordByte).getD true then
        [] :: word :: words
      else word :: words

/-- `toLower` is `strings.ToLower`. -/
def tokenizeContent (toLower : GoString → GoString) (content : GoString) : List GoString :=
  ((splitWords (toLower content)).map trimSpace).filter fun word =>
    2 ≤ word.length

def countTokens (tokens : List GoString) : GoMap GoString ℤ := tokens.foldl (fun counts token =>
    counts.insert token ((counts.lookup token).getD 0 + 1)) ∅

def SearchDocument.new (toLower : GoString → GoString)
    (path content : GoString) : SearchDocument where
  path := path
  content := content
  tokenCount := (tokenizeContent toLower content).length
  tokens := countTokens (tokenizeContent toLower content)

theorem lookup_countTokens {tokens : List GoString} {token : GoString} :
    (countTokens tokens).lookup token =
      if token ∈ tokens then some (tokens.count token : ℤ) else none := by
  have hfold : ∀ counts : GoMap GoString ℤ,
      (tokens.foldl (fun counts token =>
          counts.insert token ((counts.lookup token).getD 0 + 1))
          counts).lookup token =
        if token ∈ tokens then
          some ((counts.lookup token).getD 0 + tokens.count token)
        else counts.lookup token := by
    induction tokens with
    | nil => simp
    | cons first rest ih =>
      intro counts
      rw [List.foldl_cons, ih]
      by_cases hfirst : token = first
      · subst hfirst
        by_cases hrest : token ∈ rest
        · simp [hrest]
          ring
        · simp [hrest, List.count_eq_zero_of_not_mem hrest]
      · have hne : first ≠ token := fun heq => hfirst heq.symm
        simp [hfirst, AList.lookup_insert_ne hfirst, List.count_cons_of_ne hne]
  unfold countTokens
  simp [hfold]

/-! ## The two loops -/

namespace FullTextIndex

def new : FullTextIndex where
  documentIndex := ∅
  tokenIndex := ∅
  termFrequency := ∅
  documentFreq := ∅
  totalDocuments := 0

def dropToken (path : GoString) (index : FullTextIndex) (entry : GoString × ℤ) : FullTextIndex :=
  let token := entry.1
  { index with
    tokenIndex :=
      match index.tokenIndex.lookup token with
      | none => index.tokenIndex
      | some paths =>
        let newPaths := paths.filter (· ≠ path)
        if newPaths.length = 0 then index.tokenIndex.erase token
        else index.tokenIndex.insert token newPaths
    termFrequency :=
      match index.termFrequency.lookup token with
      | none => index.termFrequency
      | some tf =>
        if (tf.erase path).keys.length = 0 then
          index.termFrequency.erase token
        else index.termFrequency.insert token (tf.erase path)
    documentFreq :=
      let count := (index.documentFreq.lookup token).getD 0 - 1
      if count ≤ 0 then index.documentFreq.erase token
      else index.documentFreq.insert token count }

def addToken (path : GoString) (index : FullTextIndex) (entry : GoString × ℤ) : FullTextIndex :=
  let token := entry.1
  { index with
    tokenIndex := index.tokenIndex.insert token ((index.tokenIndex.lookup token).getD [] ++ [path])
    termFrequency := index.termFrequency.insert token
      (((index.termFrequency.lookup token).getD ∅).insert path entry.2)
    documentFreq := index.documentFreq.insert token ((index.documentFreq.lookup token).getD 0 + 1) }

def removeDocumentFromIndex (order : RangeOrder) (path : GoString)
    (doc : SearchDocument) (index : FullTextIndex) : FullTextIndex :=
  let index := (doc.tokens.range order).foldl (dropToken path) index
  { index with
    documentIndex := index.documentIndex.erase path
    totalDocuments := index.totalDocuments - 1 }

def setDocument (index : FullTextIndex) (path : GoString) (doc : SearchDocument) : FullTextIndex :=
  { index with documentIndex := index.documentIndex.insert path doc }

def addDocument (order : RangeOrder) (path : GoString)
    (doc : SearchDocument) (index : FullTextIndex) : FullTextIndex :=
  let index := (doc.tokens.range order).foldl (addToken path)
    (index.setDocument path doc)
  { index with totalDocuments := index.totalDocuments + 1 }

def indexDocument (toLower : GoString → GoString)
    (removeOrder addOrder : RangeOrder) (path content : GoString)
    (index : FullTextIndex) : FullTextIndex :=
  let index :=
    match index.documentIndex.lookup path with
    | some oldDoc => index.removeDocumentFromIndex removeOrder path oldDoc
    | none => index
  index.addDocument addOrder path (.new toLower path content)

end FullTextIndex

/-! ## Postings -/

structure Posting where
  paths : Option (List GoString)
  frequencies : Option (GoMap GoString ℤ)
  documents : Option ℤ

namespace Posting

def drop (path : GoString) (posting : Posting) : Posting where
  paths := posting.paths.bind fun paths =>
    let newPaths := paths.filter (· ≠ path)
    if newPaths.length = 0 then none else some newPaths
  frequencies := posting.frequencies.bind fun tf =>
    if (tf.erase path).keys.length = 0 then none else some (tf.erase path)
  documents :=
    let count := posting.documents.getD 0 - 1
    if count ≤ 0 then none else some count

def add (path : GoString) (frequency : ℤ) (posting : Posting) : Posting where
  paths := some (posting.paths.getD [] ++ [path])
  frequencies := some ((posting.frequencies.getD ∅).insert path frequency)
  documents := some (posting.documents.getD 0 + 1)

structure Lists (posting : Posting) (frequency : GoString → Option ℤ) :
    Prop where
  mem : ∀ path, path ∈ posting.paths.getD [] ↔ frequency path ≠ none
  nodup : (posting.paths.getD []).Nodup
  frequencies : ∀ path, (posting.frequencies.getD ∅).lookup path = frequency path
  documents : posting.documents.getD 0 = (posting.paths.getD []).length

variable {posting : Posting} {frequency : GoString → Option ℤ}

@[simp] theorem drop_paths {posting : Posting} :
    (posting.drop path).paths.getD [] = (posting.paths.getD []).filter (· ≠ path) := by
  unfold drop
  cases posting.paths with
  | none => simp
  | some paths =>
    simp only [Option.bind_some, Option.getD_some]
    split_ifs with hempty
    · rw [List.eq_nil_of_length_eq_zero hempty]
      rfl
    · rfl

theorem drop_frequencies {posting : Posting} :
    ((posting.drop path).frequencies.getD ∅).lookup other =
      if other = path then none
      else (posting.frequencies.getD ∅).lookup other := by
  unfold drop
  cases posting.frequencies with
  | none => simp
  | some tf =>
    simp only [Option.bind_some, Option.getD_some]
    rw [← lookup_erase_eq]
    by_cases hempty : (tf.erase path).keys.length = 0
    · have hnone : (tf.erase path).lookup other = none := by
        rw [AList.lookup_eq_none, AList.mem_keys, List.eq_nil_of_length_eq_zero hempty]
        exact List.not_mem_nil
      rw [if_pos hempty, hnone]
      rfl
    · rw [if_neg hempty]
      rfl

theorem Lists.drop (h : posting.Lists frequency) (hlisted : frequency path ≠ none) :
    (posting.drop path).Lists (Function.update frequency path none) := by
  have hmem := (h.mem path).mpr hlisted
  constructor
  · intro other
    by_cases hother : other = path
    · simp [hother]
    · simp [hother, h.mem]
  · rw [drop_paths]
    exact h.nodup.filter _
  · intro other
    rw [drop_frequencies]
    by_cases hother : other = path
    · simp [hother]
    · simp [hother, h.frequencies]
  · have hlength : ((posting.paths.getD []).filter (· ≠ path)).length + 1 =
        (posting.paths.getD []).length := by
      have hother : (fun other => decide (other ≠ path)) = fun other => other != path := by
        funext other
        by_cases heq : other = path
        · simp [heq]
        · simp [heq]
      rw [hother, ← h.nodup.erase_eq_filter path]
      exact List.length_erase_add_one hmem
    rw [drop_paths]
    unfold Posting.drop
    have hcount := h.documents
    by_cases hlast : posting.documents.getD 0 - 1 ≤ 0
    · simp only [if_pos hlast, Option.getD_none]
      omega
    · simp only [if_neg hlast, Option.getD_some]
      omega

theorem Lists.add (h : posting.Lists frequency) {path : GoString}
    (hnew : frequency path = none) (count : ℤ) :
    (posting.add path count).Lists (Function.update frequency path (some count)) := by
  have hmem : path ∉ posting.paths.getD [] := by
    simp [h.mem, hnew]
  unfold Posting.add
  constructor
  · intro other
    by_cases hother : other = path
    · simp [hother]
    · simp [hother, h.mem]
  · simp only [Option.getD_some]
    rw [List.nodup_append]
    refine ⟨h.nodup, by simp, ?_⟩
    intro other hother last hlast
    rw [List.mem_singleton.mp hlast]
    exact fun heq => hmem (heq ▸ hother)
  · intro other
    simp only [Option.getD_some]
    rw [lookup_insert_eq]
    by_cases hother : other = path
    · simp [hother]
    · simp [hother, h.frequencies]
  · simp [h.documents]

end Posting

namespace FullTextIndex

def posting (index : FullTextIndex) (token : GoString) : Posting where
  paths := index.tokenIndex.lookup token
  frequencies := index.termFrequency.lookup token
  documents := index.documentFreq.lookup token

variable (path : GoString)

theorem posting_dropToken {index : FullTextIndex} {entry : GoString × ℤ} :
    (index.dropToken path entry).posting token =
      if token = entry.1 then (index.posting token).drop path
      else index.posting token := by
  obtain ⟨dropped, count⟩ := entry
  by_cases htoken : token = dropped
  · subst htoken
    simp only [if_true, posting, dropToken, Posting.drop, Posting.mk.injEq]
    refine ⟨?_, ?_, ?_⟩
    · cases hpaths : index.tokenIndex.lookup token with
      | none => simp [hpaths]
      | some paths =>
        simp only [Option.bind_some]
        split_ifs with hempty
        · simp
        · simp
    · cases htf : index.termFrequency.lookup token with
      | none => simp [htf]
      | some tf =>
        simp only [Option.bind_some]
        split_ifs with hempty
        · simp
        · simp
    · split_ifs with hlast
      · rw [AList.lookup_erase]
        exact (if_pos hlast).symm
      · rw [AList.lookup_insert]
        exact (if_neg hlast).symm
  · simp only [if_neg htoken, posting, dropToken, Posting.mk.injEq]
    refine ⟨?_, ?_, ?_⟩
    · cases index.tokenIndex.lookup dropped with
      | none => rfl
      | some paths =>
        simp only []
        split_ifs with hempty
        · simp [AList.lookup_erase_ne htoken]
        · simp [AList.lookup_insert_ne htoken]
    · cases index.termFrequency.lookup dropped with
      | none => rfl
      | some tf =>
        simp only []
        split_ifs with hempty
        · simp [AList.lookup_erase_ne htoken]
        · simp [AList.lookup_insert_ne htoken]
    · split_ifs with hlast
      · simp [AList.lookup_erase_ne htoken]
      · simp [AList.lookup_insert_ne htoken]

theorem posting_addToken {index : FullTextIndex} {entry : GoString × ℤ} :
    (index.addToken path entry).posting token =
      if token = entry.1 then (index.posting token).add path entry.2
      else index.posting token := by
  obtain ⟨added, count⟩ := entry
  by_cases htoken : token = added
  · subst htoken
    simp [posting, addToken, Posting.add]
  · simp [posting, addToken, htoken, AList.lookup_insert_ne htoken]

theorem documents_foldl_dropToken (entries : List (GoString × ℤ)) (index : FullTextIndex) :
    (entries.foldl (dropToken path) index).documentIndex = index.documentIndex ∧
      (entries.foldl (dropToken path) index).totalDocuments = index.totalDocuments := by
  induction entries generalizing index with
  | nil => simp
  | cons entry rest ih => exact ih (index.dropToken path entry)

theorem documents_foldl_addToken (entries : List (GoString × ℤ)) (index : FullTextIndex) :
    (entries.foldl (addToken path) index).documentIndex = index.documentIndex ∧
      (entries.foldl (addToken path) index).totalDocuments = index.totalDocuments := by
  induction entries generalizing index with
  | nil => simp
  | cons entry rest ih => exact ih (index.addToken path entry)

/-! ## The invariant -/

def frequencyIn (toLower : GoString → GoString)
    (contents : GoString → Option GoString) (token path : GoString) :
    Option ℤ :=
  (contents path).bind fun content =>
    (countTokens (tokenizeContent toLower content)).lookup token

structure Indexes (toLower : GoString → GoString) (index : FullTextIndex)
    (contents : GoString → Option GoString) : Prop where
  documents : ∀ path, index.documentIndex.lookup path =
    (contents path).map (SearchDocument.new toLower path)
  postings : ∀ token, (index.posting token).Lists (frequencyIn toLower contents token)
  total : index.totalDocuments = index.documentIndex.keys.length

variable {toLower : GoString → GoString} {index : FullTextIndex}
  {contents : GoString → Option GoString}

theorem new_indexes : Indexes toLower .new fun _ => none := by
  constructor
  · simp [new]
  · intro token
    constructor <;> simp [posting, new, frequencyIn]
  · simp [new]

theorem frequencyIn_update {content : Option GoString} :
    frequencyIn toLower (Function.update contents path content) token =
      Function.update (frequencyIn toLower contents token) path
        (content.bind fun content =>
          (countTokens (tokenizeContent toLower content)).lookup token) := by
  funext other
  by_cases hother : other = path
  · subst hother
    simp [frequencyIn]
  · simp [frequencyIn, hother]

theorem update_none (hnone : frequencyIn toLower contents token path = none) :
    Function.update (frequencyIn toLower contents token) path none =
      frequencyIn toLower contents token := by
  rw [← hnone, Function.update_eq_self]

theorem Indexes.remove (h : Indexes toLower index contents)
    (order : RangeOrder) {path content : GoString}
    (hcontent : contents path = some content) :
    Indexes toLower (index.removeDocumentFromIndex order path (.new toLower path content))
      (Function.update contents path none) := by
  have hkept := documents_foldl_dropToken path
    ((SearchDocument.new toLower path content).tokens.range order) index
  have hthere : index.documentIndex.contains path = true := by
    simp [GoMap.contains, h.documents, hcontent]
  constructor
  · intro other
    simp only [removeDocumentFromIndex, hkept.1]
    rw [lookup_erase_eq, h.documents]
    by_cases hother : other = path
    · simp [hother]
    · simp [hother]
  · intro token
    have hposting := foldl_range_get posting (dropToken path) (fun _ => Posting.drop path)
      (fun index entry token => posting_dropToken path)
    have hbefore := h.postings token
    have hchanged : (index.removeDocumentFromIndex order path
        (.new toLower path content)).posting token =
          (((SearchDocument.new toLower path content).tokens.range
            order).foldl (dropToken path) index).posting token := rfl
    rw [hchanged, hposting, frequencyIn_update]
    have hfrequency : frequencyIn toLower contents token path =
        (SearchDocument.new toLower path content).tokens.lookup token := by
      simp [frequencyIn, hcontent, SearchDocument.new]
    cases hlookup : (SearchDocument.new toLower path content).tokens.lookup token with
    | none =>
      rw [hlookup] at hfrequency
      simpa [update_none path hfrequency] using hbefore
    | some count =>
      rw [hlookup] at hfrequency
      exact hbefore.drop (by simp [hfrequency])
  · have hlength := length_keys_erase hthere
    simp only [removeDocumentFromIndex, hkept.1, hkept.2, h.total]
    omega

theorem Indexes.add (h : Indexes toLower index contents)
    (order : RangeOrder) (path content : GoString)
    (hnew : contents path = none) :
    Indexes toLower (index.addDocument order path (.new toLower path content))
      (Function.update contents path (some content)) := by
  have hkept := documents_foldl_addToken path
    ((SearchDocument.new toLower path content).tokens.range order)
    (index.setDocument path (.new toLower path content))
  have hdocuments : (index.addDocument order path
      (.new toLower path content)).documentIndex =
        index.documentIndex.insert path (.new toLower path content) := hkept.1
  have htotal : (index.addDocument order path
      (.new toLower path content)).totalDocuments =
        index.totalDocuments + 1 := congrArg (· + 1) hkept.2
  have hfree : index.documentIndex.contains path = false := by
    simp [GoMap.contains, h.documents, hnew]
  constructor
  · intro other
    rw [hdocuments, lookup_insert_eq, h.documents]
    by_cases hother : other = path
    · simp [hother]
    · simp [hother]
  · intro token
    have hposting := foldl_range_get posting (addToken path) (fun entry => Posting.add path entry.2)
      (fun index entry token => posting_addToken path)
    have hbefore := h.postings token
    have hchanged : (index.addDocument order path
        (.new toLower path content)).posting token =
          (((SearchDocument.new toLower path content).tokens.range
            order).foldl (addToken path) (index.setDocument path
              (.new toLower path content))).posting token := rfl
    have hset : (index.setDocument path
        (.new toLower path content)).posting token = index.posting token := rfl
    have hfrequency : frequencyIn toLower contents token path = none := by
      simp [frequencyIn, hnew]
    have hcounts : (countTokens (tokenizeContent toLower content)).lookup token =
      (SearchDocument.new toLower path content).tokens.lookup token := rfl
    rw [hchanged, hposting, hset, frequencyIn_update, Option.bind_some, hcounts]
    cases (SearchDocument.new toLower path content).tokens.lookup token with
    | none =>
      simpa [update_none path hfrequency] using hbefore
    | some count => exact hbefore.add hfrequency count
  · have hlength := length_keys_insert
      (SearchDocument.new toLower path content) hfree
    rw [hdocuments, htotal, h.total]
    omega

theorem Indexes.indexDocument (h : Indexes toLower index contents)
    (removeOrder addOrder : RangeOrder) (path content : GoString) :
    Indexes toLower (index.indexDocument toLower removeOrder addOrder path content)
      (Function.update contents path (some content)) := by
  unfold FullTextIndex.indexDocument
  rw [h.documents]
  cases hold : contents path with
  | none => exact h.add addOrder path content hold
  | some oldContent =>
    have hremoved := h.remove removeOrder hold
    have hadded := hremoved.add addOrder path content (by simp)
    simpa using hadded

/-! ## Runs -/

structure IndexCall where
  path : GoString
  content : GoString
  removeOrder : RangeOrder
  addOrder : RangeOrder

def perform (toLower : GoString → GoString) (index : FullTextIndex)
    (call : IndexCall) : FullTextIndex :=
  index.indexDocument toLower call.removeOrder call.addOrder call.path call.content

def indexAll (toLower : GoString → GoString) (calls : List IndexCall) : FullTextIndex :=
  calls.foldl (perform toLower) .new

def remember (contents : GoString → Option GoString) (call : IndexCall) :
    GoString → Option GoString :=
  Function.update contents call.path (some call.content)

def currentContent (calls : List IndexCall) : GoString → Option GoString :=
  calls.foldl remember fun _ => none

def listed (index : FullTextIndex) (token : GoString) : List GoString :=
  (index.tokenIndex.lookup token).getD []

theorem indexAll_indexes (toLower : GoString → GoString) (calls : List IndexCall) :
    Indexes toLower (indexAll toLower calls) (currentContent calls) := by
  have hrun : ∀ (calls : List IndexCall) (index : FullTextIndex)
      (contents : GoString → Option GoString),
      Indexes toLower index contents →
      Indexes toLower (calls.foldl (perform toLower) index) (calls.foldl remember contents) := by
    intro calls
    induction calls with
    | nil => exact fun _ _ h => h
    | cons call rest ih =>
      intro index contents h
      exact ih _ _ (h.indexDocument call.removeOrder call.addOrder call.path call.content)
  exact hrun calls _ _ new_indexes

theorem currentContent_ne_none_iff {calls : List IndexCall} {path : GoString} :
    currentContent calls path ≠ none ↔ path ∈ calls.map IndexCall.path := by
  have hrun : ∀ (calls : List IndexCall) (contents : GoString → Option GoString),
      calls.foldl remember contents path ≠ none ↔
        contents path ≠ none ∨ path ∈ calls.map IndexCall.path := by
    intro calls
    induction calls with
    | nil => simp
    | cons call rest ih =>
      intro contents
      rw [List.foldl_cons, ih]
      by_cases hpath : path = call.path
      · simp [remember, hpath]
      · simp [remember, hpath]
  simpa [currentContent] using hrun calls fun _ => none

/-- After any sequence of calls: what is listed under a token, how many, and
how many documents there are. -/
theorem full_text_index_exact (toLower : GoString → GoString) (calls : List IndexCall) :
    (∀ token path, path ∈ (indexAll toLower calls).listed token ↔
        ∃ content, currentContent calls path = some content ∧
          token ∈ tokenizeContent toLower content) ∧
      (∀ token, ((indexAll toLower calls).listed token).Nodup ∧
        ((indexAll toLower calls).documentFreq.lookup token).getD 0 =
          ((indexAll toLower calls).listed token).length) ∧
      (indexAll toLower calls).totalDocuments = (calls.map IndexCall.path).dedup.length := by
  have h := indexAll_indexes toLower calls
  refine ⟨?_, ?_, ?_⟩
  · intro token path
    have hlisted := (h.postings token).mem path
    unfold frequencyIn at hlisted
    refine hlisted.trans ?_
    cases currentContent calls path with
    | none => simp
    | some content => simp [lookup_countTokens]
  · intro token
    exact ⟨(h.postings token).nodup, (h.postings token).documents⟩
  · have hperm : (indexAll toLower calls).documentIndex.keys.Perm
        (calls.map IndexCall.path).dedup := by
      rw [List.perm_ext_iff_of_nodup (AList.keys_nodup _) (List.nodup_dedup _)]
      intro path
      rw [List.mem_dedup, ← currentContent_ne_none_iff, ← AList.mem_keys,
        ← AList.lookup_isSome, h.documents]
      cases currentContent calls path <;> simp
    rw [h.total, hperm.length_eq]

end FullTextIndex

end Govc
