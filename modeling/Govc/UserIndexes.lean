import Govc.DatastoreModel
import Govc.GuardedRuns

/-!
# The indexes of the users

The tables by name and by email should be the inverses of the table of users.
`SaveUser` asks both indexes before it stores a user.  `UpdateUser` does not:
it takes a name or an email from whoever has it.
-/

namespace Govc.Datastore

open Go GoMap

/-- The tables by name and by email are the inverses of the table of users. -/
structure Consistent (p : Process) : Prop where
  keyed : ∀ id pointer, p.store.users.lookup id = some pointer → (p.records.users pointer).id = id
  byName : p.store.users.Indexes p.usernameOf p.store.usersByName
  byEmail : p.store.users.Indexes p.emailOf p.store.usersByEmail

namespace Consistent

variable {p : Process} {pointer : Pointer} {id : GoString}

theorem new (records : Records) (maxSize : ℤ) : Consistent ⟨records, .new maxSize⟩ := by
  constructor
  case keyed =>
    intro id pointer hid
    cases hid
  case byName => exact indexes_empty _
  case byEmail => exact indexes_empty _

theorem single (h : Consistent p) : p.store.users.Single := by
  intro id other pointer hid hother
  exact (h.keyed id pointer hid).symm.trans (h.keyed other pointer hother)

variable {found : Pointer}

theorem id_eq_of_field {field : Pointer → GoString} (h : Consistent p)
    (hindex : p.store.users.Indexes field index)
    (hid : p.store.users.lookup id = some pointer) (hother : p.store.users.lookup other = some found)
    (hsame : field pointer = field found) : id = other := by
  have heq := hindex.eq_of_field hid hother hsame
  rw [heq] at hid
  exact h.single id other found hid hother

theorem keyed_update (h : Consistent p) (user : User)
    (hkept : ∀ id, p.store.users.lookup id = some pointer → user.id = id)
    (hfound : p.store.users.lookup id = some found) :
    (Function.update p.records.users pointer user found).id = id := by
  by_cases hsame : found = pointer
  · rw [hsame, Function.update_self]
    exact hkept id (hsame ▸ hfound)
  · rw [Function.update_of_ne hsame]
    exact h.keyed id found hfound

/-- A record may change in what the tables do not depend on, and one that is
in no table may change in everything. -/
theorem setUser (h : Consistent p)
    (hkeeps : ∀ id, p.store.users.lookup id = some pointer →
      user.id = id ∧ user.username = p.usernameOf pointer ∧ user.email = p.emailOf pointer) :
    Consistent (p.setUser pointer user) := by
  constructor
  case keyed =>
    intro id found hfound
    exact h.keyed_update user (fun id hid => (hkeeps id hid).1) hfound
  case byName =>
    exact GoMap.Indexes.update (f := User.username) h.byName fun id hid => (hkeeps id hid).2.1
  case byEmail =>
    exact GoMap.Indexes.update (f := User.email) h.byEmail fun id hid => (hkeeps id hid).2.2

end Consistent

namespace Process

def stampUser (stamp : Stamp) (pointer : Pointer) (p : Process) : Process :=
  p.setUser pointer ((p.records.users pointer).stamped stamp)

def putUser (pointer : Pointer) (p : Process) : Process :=
  let user := p.records.users pointer
  { p with
    store :=
      { p.store with
        users := p.store.users.insert user.id pointer
        usersByName :=
          (p.store.usersByName.forgetting p.store.users p.usernameOf
            user.id).insert user.username pointer
        usersByEmail :=
          (p.store.usersByEmail.forgetting p.store.users p.emailOf
            user.id).insert user.email pointer } }

theorem users_stampUser (stamp : Stamp) (pointer : Pointer) (p : Process) :
    (p.stampUser stamp pointer).records.users pointer = (p.records.users pointer).stamped stamp :=
  Function.update_self _ _ _

theorem saveUser_of_free (huser : (p.records.users pointer).stamped stamp = user)
    (hname : (p.stampUser stamp pointer).takenBy p.store.usersByName user.username user.id = false)
    (hemail : (p.stampUser stamp pointer).takenBy p.store.usersByEmail user.email user.id = false)
    (hrunning : p.store.closed = false) :
    saveUser stamp pointer p = (.ok (), (p.stampUser stamp pointer).putUser pointer) := by
  have hself : (p.stampUser stamp pointer).records.users pointer = user :=
    (users_stampUser stamp pointer p).trans huser
  have hopen : (p.stampUser stamp pointer).store.closed = false := hrunning
  unfold putUser saveUser
  rw [hself, huser]
  unfold stampUser at hname hemail hopen ⊢
  rw [huser] at hname hemail hopen ⊢
  exact (if_neg (Bool.eq_false_iff.mp hname)).trans
    ((if_neg (Bool.eq_false_iff.mp hemail)).trans (if_neg (Bool.eq_false_iff.mp hopen)))

theorem saveUser_cases {p : Process} :
    (saveUser stamp pointer p).2 = p.stampUser stamp pointer ∨
      (∀ user, user = (p.records.users pointer).stamped stamp →
        (p.stampUser stamp pointer).takenBy p.store.usersByName user.username user.id = false ∧
          (p.stampUser stamp pointer).takenBy p.store.usersByEmail user.email user.id = false) ∧
        saveUser stamp pointer p = (.ok (), (p.stampUser stamp pointer).putUser pointer) := by
  by_cases hfree :
      (p.stampUser stamp pointer).takenBy p.store.usersByName
          ((p.records.users pointer).stamped stamp).username
          ((p.records.users pointer).stamped stamp).id = false ∧
        (p.stampUser stamp pointer).takenBy p.store.usersByEmail
          ((p.records.users pointer).stamped stamp).email
          ((p.records.users pointer).stamped stamp).id = false ∧
        p.store.closed = false
  · obtain ⟨hname, hemail, hrunning⟩ := hfree
    refine .inr ⟨?_, saveUser_of_free rfl hname hemail hrunning⟩
    rintro user rfl
    exact ⟨hname, hemail⟩
  · left
    unfold saveUser
    dsimp only
    split_ifs with hname hemail hclosed
    · rfl
    · rfl
    · rfl
    · exact absurd ⟨Bool.eq_false_of_not_eq_true hname, Bool.eq_false_of_not_eq_true hemail,
        Bool.eq_false_of_not_eq_true hclosed⟩ hfree

end Process

namespace Consistent

variable {p : Process} {pointer : Pointer} {id : GoString}

variable (h : Consistent p)

include h

theorem putUser (hname : ∀ id found, p.store.users.lookup id = some found →
      p.usernameOf found = p.usernameOf pointer →
      id = (p.records.users pointer).id)
    (hemail : ∀ id found, p.store.users.lookup id = some found →
      p.emailOf found = p.emailOf pointer →
      id = (p.records.users pointer).id) :
    Consistent (p.putUser pointer) := by
  constructor
  case keyed =>
    exact forall_insert h.keyed rfl
  case byName => exact h.byName.insert h.single hname
  case byEmail => exact h.byEmail.insert h.single hemail

theorem id_of_not_takenBy {field : Pointer → GoString}
    {index : GoMap GoString Pointer}
    (hindex : p.store.users.Indexes field index) {key : GoString}
    (hfree : p.takenBy index key id = false) {other : GoString}
    {found : Pointer} (hfound : p.store.users.lookup other = some found)
    (hkey : field found = key) : other = id := by
  unfold Process.takenBy at hfree
  rw [(hindex key found).mpr ⟨⟨other, hfound⟩, hkey⟩, Option.any_some,
    h.keyed other found hfound] at hfree
  simpa using hfree

theorem takenBy_eq_false (hindex : p.store.users.Indexes field index)
    (hfree : ∀ other found, p.store.users.lookup other = some found →
      field found = key → other = id) : p.takenBy index key id = false := by
  unfold Process.takenBy
  cases hlookup : index.lookup key with
  | none => rfl
  | some existing =>
    obtain ⟨⟨other, hother⟩, hkey⟩ := (hindex key existing).mp hlookup
    have hid : (p.records.users existing).id = id :=
      (h.keyed other existing hother).trans (hfree other existing hother hkey)
    rw [Option.any_some, hid]
    simp

theorem stampUser
    (hown : ∀ id, p.store.users.lookup id = some pointer →
      ((p.records.users pointer).stamped stamp).id = id) :
    Consistent (p.stampUser stamp pointer) :=
  h.setUser fun id hid => ⟨hown id hid, rfl, rfl⟩

theorem saveUser
    (hown : ∀ id, p.store.users.lookup id = some pointer →
      ((p.records.users pointer).stamped stamp).id = id) :
    Consistent (Process.saveUser stamp pointer p).2 := by
  have hstamped := h.stampUser hown
  rcases Process.saveUser_cases with
    hrefused | ⟨hfree, hsaved⟩
  · rw [hrefused]
    exact hstamped
  · obtain ⟨hname, hemail⟩ := hfree _ rfl
    rw [← Process.users_stampUser] at hname hemail
    rw [hsaved]
    apply hstamped.putUser
    · intro id found hfound hsame
      exact hstamped.id_of_not_takenBy hstamped.byName hname hfound hsame
    · intro id found hfound hsame
      exact hstamped.id_of_not_takenBy hstamped.byEmail hemail hfound hsame

theorem deleteUser (id : GoString) : Consistent (Process.deleteUser id p).2 := by
  unfold Process.deleteUser
  cases hid : p.store.users.lookup id with
  | none => exact h
  | some pointer =>
    constructor
    case keyed =>
      intro other found hfound
      exact h.keyed other found (lookup_of_erase hfound)
    case byName => exact h.byName.erase h.single hid
    case byEmail => exact h.byEmail.erase h.single hid

/-! ## Updates -/

theorem renameUser (hid : p.store.users.lookup id = some pointer)
    (hfree : ∀ other found, p.store.users.lookup other = some found →
      p.usernameOf found = username → other = id) :
    Consistent (p.renameUser pointer username) := by
  constructor
  case keyed =>
    intro other found hfound
    exact h.keyed_update { p.records.users pointer with username := username }
      (fun id hid => h.keyed id pointer hid) hfound
  case byName =>
    exact GoMap.Indexes.move (f := User.username) h.byName hid hfree
  case byEmail =>
    exact GoMap.Indexes.update (f := User.email) h.byEmail fun _ _ => rfl

theorem readdressUser (hid : p.store.users.lookup id = some pointer)
    (hfree : ∀ other found, p.store.users.lookup other = some found →
      p.emailOf found = email → other = id) :
    Consistent (p.readdressUser pointer email) := by
  constructor
  case keyed =>
    intro other found hfound
    exact h.keyed_update { p.records.users pointer with email := email }
      (fun id hid => h.keyed id pointer hid) hfound
  case byName =>
    exact GoMap.Indexes.update (f := User.username) h.byName fun _ _ => rfl
  case byEmail =>
    exact GoMap.Indexes.move (f := User.email) h.byEmail hid hfree

end Consistent

def FreeFor (p : Process) (id : GoString) (entry : GoString × Value) : Prop :=
  ∀ v, entry.2 = .string v → ∀ other found, p.store.users.lookup other = some found →
    (entry.1 = str "username" → p.usernameOf found = v → other = id) ∧
      (entry.1 = str "email" → p.emailOf found = v → other = id)

structure Updating (p : Process) (pointer : Pointer) (q : Process) :
    Prop where
  consistent : Consistent q
  table : q.store.users = p.store.users
  others : ∀ found, found ≠ pointer → q.records.users found = p.records.users found

namespace Updating

variable {p q : Process} {pointer : Pointer} {id : GoString}

theorem refl (h : Consistent p) : Updating p pointer p := ⟨h, rfl, fun _ _ => rfl⟩

theorem id_of_found (h : Updating p pointer q)
    (hid : p.store.users.lookup id = some pointer) {other : GoString}
    {found : Pointer} (hfound : q.store.users.lookup other = some found)
    (hold : p.store.users.lookup other = some found →
      q.records.users found = p.records.users found → other = id) :
    other = id := by
  rw [h.table] at hfound
  by_cases hsame : found = pointer
  · rw [hsame] at hfound
    have hleft := h.consistent.keyed other pointer (h.table ▸ hfound)
    have hright := h.consistent.keyed id pointer (h.table ▸ hid)
    exact hleft.symm.trans hright
  · exact hold hfound (h.others found hsame)

theorem setUser (h : Updating p pointer q)
    (hkeeps : user.id = (q.records.users pointer).id ∧ user.username = q.usernameOf pointer ∧
      user.email = q.emailOf pointer) :
    Updating p pointer (q.setUser pointer user) := by
  refine ⟨?_, h.table, ?_⟩
  · apply h.consistent.setUser
    intro id hid
    exact ⟨hkeeps.1.trans (h.consistent.keyed id pointer hid), hkeeps.2⟩
  · intro found hne
    exact (Function.update_of_ne hne _ _).trans (h.others found hne)

theorem updateUserField (h : Updating p pointer q) (hid : p.store.users.lookup id = some pointer)
    (hfree : FreeFor p id entry) :
    Updating p pointer (q.updateUserField pointer entry) := by
  have hlookup : q.store.users.lookup id = some pointer := by
    rw [h.table]
    exact hid
  have hrest : ∀ user found, found ≠ pointer →
      Function.update q.records.users pointer user found = p.records.users found := by
    intro user found hne
    exact (Function.update_of_ne hne _ _).trans (h.others found hne)
  unfold Process.updateUserField
  cases hvalue : entry.2 with
  | string v =>
    dsimp only
    split_ifs with hname hemail hfull
    · refine ⟨?_, h.table, hrest _⟩
      apply h.consistent.renameUser hlookup
      intro other found hfound hclash
      apply h.id_of_found hid hfound
      intro hold hsame
      unfold Process.usernameOf at hclash
      rw [hsame] at hclash
      exact (hfree v hvalue other found hold).1 hname hclash
    · refine ⟨?_, h.table, hrest _⟩
      apply h.consistent.readdressUser hlookup
      intro other found hfound hclash
      apply h.id_of_found hid hfound
      intro hold hsame
      unfold Process.emailOf at hclash
      rw [hsame] at hclash
      exact (hfree v hvalue other found hold).2 hemail hclash
    · exact h.setUser ⟨rfl, rfl, rfl⟩
    · exact h
  | bool v =>
    dsimp only
    split_ifs with hactive hadmin
    · exact h.setUser ⟨rfl, rfl, rfl⟩
    · exact h.setUser ⟨rfl, rfl, rfl⟩
    · exact h
  | time v =>
    dsimp only
    split_ifs with hlogin
    · exact h.setUser ⟨rfl, rfl, rfl⟩
    · exact h
  | other => exact h

theorem foldl (hid : p.store.users.lookup id = some pointer) {entries : List (GoString × Value)}
    (hfree : ∀ entry ∈ entries, FreeFor p id entry) (h : Updating p pointer q) :
    Updating p pointer (entries.foldl (Process.updateUserField pointer) q) := by
  induction entries generalizing q with
  | nil => exact h
  | cons entry rest ih =>
    have hentry := hfree entry (List.mem_cons_self ..)
    have hrest : ∀ later ∈ rest, FreeFor p id later :=
      fun later hlater => hfree later (List.mem_cons_of_mem entry hlater)
    exact ih hrest (h.updateUserField hid hentry)

end Updating

variable {p : Process}

theorem Consistent.updateUser (h : Consistent p) (order : RangeOrder) (now : Time) {id : GoString}
    (hfree : p.store.users.contains id = true →
      ∀ key value, updates.lookup key = some value → FreeFor p id (key, value)) :
    Consistent (Process.updateUser order now id updates p).2 := by
  unfold Process.updateUser
  cases hid : p.store.users.lookup id with
  | none => exact h
  | some pointer =>
    have hcontains : p.store.users.contains id = true := by
      rw [GoMap.contains, hid]
      rfl
    have hentries : ∀ entry ∈ updates.range order, FreeFor p id entry := by
      intro entry hentry
      exact hfree hcontains entry.1 entry.2 ((mem_range order updates _).mp hentry)
    have hloop := Updating.foldl hid hentries (.refl h)
    exact Updating.consistent (hloop.setUser ⟨rfl, rfl, rfl⟩)

/-! ## Runs -/

/-- `save` is called with a record at an address. -/
inductive UserCall where
  | save (stamp : Stamp) (pointer : Pointer) (user : User)
  | update (order : RangeOrder) (now : Time) (id : GoString)
      (updates : Updates)
  | delete (id : GoString)

namespace UserCall

def perform (p : Process) : UserCall → Process
  | save stamp pointer user =>
    (Process.saveUser stamp pointer (p.setUser pointer user)).2
  | update order now id updates =>
    (Process.updateUser order now id updates p).2
  | delete id => (Process.deleteUser id p).2

def pointer : UserCall → Option Pointer
  | save _ pointer _ => some pointer
  | update .. => none
  | delete _ => none

/-- An update gives a user no name and no email of another user. -/
def Free (p : Process) : UserCall → Prop
  | save .. => True
  | update _ _ id updates => p.store.users.contains id = true →
      ∀ key value, updates.lookup key = some value → FreeFor p id (key, value)
  | delete _ => True

def Fresh (p : Process) (call : UserCall) : Prop :=
  ∀ pointer, call.pointer = some pointer → ∀ id, p.store.users.lookup id ≠ some pointer

end UserCall

namespace Process

theorem users_saveUser {stamp : Stamp} {pointer found : Pointer}
    {id : GoString}
    (hfound : (saveUser stamp pointer p).2.store.users.lookup id = some found) :
    p.store.users.lookup id = some found ∨ found = pointer := by
  rcases saveUser_cases with hrefused | ⟨-, hsaved⟩
  · rw [hrefused] at hfound
    exact .inl hfound
  · rw [hsaved] at hfound
    rcases lookup_insert_cases hfound with ⟨-, hnew⟩ | ⟨-, hold⟩
    · exact .inr hnew
    · exact .inl hold

theorem users_updateUserField {p : Process} :
    (p.updateUserField pointer entry).store.users = p.store.users := by
  unfold updateUserField
  cases entry.2 with
  | string v =>
    dsimp only
    split_ifs with hname hemail hfull
    · rfl
    · rfl
    · rfl
    · rfl
  | bool v =>
    dsimp only
    split_ifs with hactive hadmin
    · rfl
    · rfl
    · rfl
  | time v =>
    dsimp only
    split_ifs with hlogin
    · rfl
    · rfl
  | other => rfl

theorem users_updateUser {id : GoString}
    {p : Process} :
    (updateUser order now id updates p).2.store.users = p.store.users := by
  have hloop : ∀ (pointer : Pointer) (entries : List (GoString × Value)) (q : Process),
      (entries.foldl (updateUserField pointer) q).store.users = q.store.users := by
    intro pointer entries
    induction entries with
    | nil => exact fun _ => rfl
    | cons entry rest ih =>
      intro q
      exact (ih _).trans (users_updateUserField)
  unfold updateUser
  cases p.store.users.lookup id with
  | none => rfl
  | some pointer => exact hloop pointer _ p

theorem users_deleteUser {id other : GoString} {found : Pointer}
    (hfound : (deleteUser id p).2.store.users.lookup other = some found) :
    p.store.users.lookup other = some found := by
  unfold deleteUser at hfound
  cases hid : p.store.users.lookup id with
  | none =>
    rw [hid] at hfound
    exact hfound
  | some pointer =>
    rw [hid] at hfound
    exact lookup_of_erase hfound

end Process

theorem UserCall.users_perform {call : UserCall}
    {id : GoString} {found : Pointer}
    (hfound : (call.perform p).store.users.lookup id = some found) :
    p.store.users.lookup id = some found ∨ call.pointer = some found := by
  cases call with
  | save stamp pointer user =>
    rcases Process.users_saveUser hfound with hold | hnew
    · exact .inl hold
    · exact .inr (congrArg some hnew.symm)
  | update order now id updates =>
    left
    rw [← Process.users_updateUser]
    exact hfound
  | delete id => exact .inl (Process.users_deleteUser hfound)

theorem Consistent.perform (h : Consistent p) {call : UserCall}
    (hfresh : call.Fresh p) (hfree : call.Free p) :
    Consistent (call.perform p) := by
  cases call with
  | save stamp pointer user =>
    have hnew : ∀ id, p.store.users.lookup id ≠ some pointer := hfresh pointer rfl
    have hset : Consistent (p.setUser pointer user) := h.setUser fun id hid => absurd hid (hnew id)
    exact hset.saveUser fun id hid => absurd hid (hnew id)
  | update order now id updates => exact h.updateUser order now hfree
  | delete id => exact h.deleteUser id

structure ExactIndexes (p : Process) : Prop where
  /-- Every user is found under their name, and no other entry is there. -/
  names : ∀ name pointer, p.store.usersByName.lookup name = some pointer ↔
    ∃ id, p.store.users.lookup id = some pointer ∧ (p.records.users pointer).username = name
  emails : ∀ email pointer, p.store.usersByEmail.lookup email = some pointer ↔
    ∃ id, p.store.users.lookup id = some pointer ∧ (p.records.users pointer).email = email
  distinct : ∀ id other pointer found, p.store.users.lookup id = some pointer →
    p.store.users.lookup other = some found → id ≠ other →
    (p.records.users pointer).username ≠ (p.records.users found).username ∧
      (p.records.users pointer).email ≠ (p.records.users found).email

theorem Consistent.exactIndexes (h : Consistent p) : ExactIndexes p := by
  constructor
  case names =>
    intro name pointer
    exact (h.byName name pointer).trans exists_and_right.symm
  case emails =>
    intro email pointer
    exact (h.byEmail email pointer).trans exists_and_right.symm
  case distinct =>
    intro id other pointer found hid hother hne
    exact ⟨fun hsame => hne (h.id_eq_of_field h.byName hid hother hsame),
      fun hsame => hne (h.id_eq_of_field h.byEmail hid hother hsame)⟩

theorem Consistent.run {calls : List UserCall} (h : Consistent p)
    (hdistinct : (calls.filterMap UserCall.pointer).Nodup)
    (hnew : ∀ pointer ∈ calls.filterMap UserCall.pointer,
      ∀ id, p.store.users.lookup id ≠ some pointer)
    (hfree : Runs.Admits UserCall.perform (fun p call => call.Free p) p calls) :
    Consistent (calls.foldl UserCall.perform p) := by
  induction calls generalizing p with
  | nil => exact h
  | cons call rest ih =>
    have hfresh : call.Fresh p := by
      intro pointer hpointer
      exact hnew pointer (List.mem_filterMap.mpr ⟨call, List.mem_cons_self .., hpointer⟩)
    have hrest : (rest.filterMap UserCall.pointer).Nodup :=
      hdistinct.sublist ((List.sublist_cons_self call rest).filterMap _)
    apply ih (h.perform hfresh hfree.1) hrest _ hfree.2
    intro pointer hpointer id hfound
    rcases UserCall.users_perform hfound with hold | hcall
    · exact hnew pointer (((List.sublist_cons_self call rest).filterMap _).mem hpointer) id hold
    · rw [List.filterMap_cons_some hcall, List.nodup_cons] at hdistinct
      exact hdistinct.1 hpointer

/-- As long as no update takes the name or the email of another user, the
indexes are exact after every sequence of calls. -/
theorem user_indexes_exact (maxSize : ℤ) (records : Records) {calls : List UserCall}
    (hdistinct : (calls.filterMap UserCall.pointer).Nodup)
    (hfree : Runs.Admits UserCall.perform (fun p call => call.Free p)
      ⟨records, .new maxSize⟩ calls) :
    ExactIndexes (calls.foldl UserCall.perform ⟨records, .new maxSize⟩) := by
  have hstart := Consistent.new records maxSize
  apply Consistent.exactIndexes
  apply hstart.run hdistinct _ hfree
  intro pointer hpointer id hid
  cases hid

def twoUsers : List UserCall :=
  [.save ⟨[], 1, 1⟩ 0 { User.zero with id := str "a", username := str "a", email := str "a" },
    .save ⟨[], 1, 1⟩ 1 { User.zero with id := str "b", username := str "b", email := str "b" }]

def renamed (id username : GoString) : UserCall :=
  .update .inserted 2 id (AList.insert (str "username") (.string username) ∅)

theorem user_indexes_exact_renamed :
    ExactIndexes ((twoUsers ++ [renamed (str "a") (str "c")]).foldl
      UserCall.perform ⟨Records.zero, .new 0⟩) := by
  apply user_indexes_exact
  · decide
  · refine ⟨trivial, trivial, ?_, trivial⟩
    intro _ key value hlookup v hv other found hother
    rw [lookup_insert_eq] at hlookup
    split_ifs at hlookup with hkey
    · cases hlookup
      cases hv
      have hunused : ∀ entry ∈ (twoUsers.foldl UserCall.perform
          ⟨Records.zero, .new 0⟩).store.users.entries,
          (twoUsers.foldl UserCall.perform
            ⟨Records.zero, .new 0⟩).usernameOf entry.2 ≠ str "c" := by
        decide +kernel
      refine ⟨fun _ hclash => ?_, fun hemail => ?_⟩
      · exact absurd hclash (hunused ⟨other, found⟩ (AList.mem_lookup_iff.mp hother))
      · exact absurd (hkey.symm.trans hemail) (by decide)
    · cases hlookup

/-- The second user takes the name of the first, who is no longer found. -/
theorem update_takes_username :
    ¬ ExactIndexes ((twoUsers ++ [renamed (str "b") (str "a")]).foldl
      UserCall.perform ⟨Records.zero, .new 0⟩) := by
  intro hexact
  have hfound := (hexact.names (str "a") 0).mpr ⟨str "a", by decide +kernel, by decide +kernel⟩
  revert hfound
  decide +kernel

end Govc.Datastore
