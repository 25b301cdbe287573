import Codemod.Proofs.Blob.Artifact
import Codemod.Store.Loader
/-!
# What a rule store asks for

All that a rule store asks of its loader is written down call by call, with what it
answers and what it keeps (`RuleStore.turns`). The loader may answer as it likes,
and otherwise each time. Still every turn is faithful to those before it
(`RuleStore.Turn.Faithful`): rules that were answered since the store was last told
to forget them are answered again without asking, and otherwise all that is listed
is read and added in order, up to the first failure (`RuleStore.Loads`).
-/

namespace Codemod

/-! ## Recording -/

namespace Loader

/-- What a loader is asked for, with its answer. -/
inductive Request where
  | list (answer : Except FileError (List String))
  | read (name : String) (answer : Except FileError Bytes)

variable {σ : Type} (loader : Loader (StateM σ))

/-- The loader, with all that it is asked for written down in order. -/
def recorded : Loader (StateM (σ × List Request)) where
  list := fun (world, log) =>
    let (answer, world) := loader.list world
    (answer, world, log ++ [.list answer])
  read name := fun (world, log) =>
    let (answer, world) := loader.read name world
    (answer, world, log ++ [.read name answer])

variable {α β : Type}

/-- **An action is recorded**: it does the same whether what it asks for is written
down or not, and what it asks for and comes to is as specified, however the loader
answers. -/
def Records (action : StateM (σ × List Request) α) (plain : StateM σ α)
    (spec : List Request → α → Prop) : Prop :=
  ∀ world log, ∃ requests,
    action (world, log) = ((plain world).1, (plain world).2, log ++ requests) ∧
      spec requests (plain world).1

namespace Records

variable {action : StateM (σ × List Request) α} {plain : StateM σ α}
  {first : List Request → α → Prop} {spec : List Request → β → Prop}

theorem pure {spec : List Request → α → Prop} {a : α} (h : spec [] a) :
    Records (Pure.pure a : StateM (σ × List Request) α) (Pure.pure a) spec :=
  fun _ log => ⟨[], by rw [List.append_nil]; rfl, h⟩

/-- Of one action after another, the requests follow each other. -/
theorem bind (hfirst : Records action plain first)
    {next : α → StateM (σ × List Request) β} {plainNext : α → StateM σ β}
    (hnext : ∀ a requests, first requests a →
      Records (next a) (plainNext a) fun rest b => spec (requests ++ rest) b) :
    Records (action >>= next) (plain >>= plainNext) spec := by
  intro world log
  obtain ⟨requests, haction, hspec⟩ := hfirst world log
  obtain ⟨rest, hrest, hall⟩ := hnext _ requests hspec (plain world).2 (log ++ requests)
  refine ⟨requests ++ rest, ?_, hall⟩
  rw [← List.append_assoc]
  exact (congrArg (fun r => next r.1 r.2) haction).trans hrest

/-- An action that ends there asks for no more. -/
theorem done {requests : List Request} {b : β} (h : spec requests b) :
    Records (Pure.pure b : StateM (σ × List Request) β) (Pure.pure b) fun rest b =>
      spec (requests ++ rest) b :=
  .pure (by rwa [List.append_nil])

theorem mono (h : Records action plain first) {spec : List Request → α → Prop}
    (himp : ∀ requests a, first requests a → spec requests a) : Records action plain spec := by
  intro world log
  obtain ⟨requests, haction, hspec⟩ := h world log
  exact ⟨requests, haction, himp _ _ hspec⟩

end Records

theorem records_list :
    Records loader.recorded.list loader.list fun requests answer => requests = [.list answer] :=
  fun _ _ => ⟨_, rfl, rfl⟩

theorem records_read (name : String) :
    Records (loader.recorded.read name) (loader.read name) fun requests answer =>
      requests = [.read name answer] :=
  fun _ _ => ⟨_, rfl, rfl⟩

end Loader

/-- What cannot be added bears a name that is taken. -/
theorem RuleSet.of_add_eq_error {s : RuleSet} {a : Artifact} {e : StoreError}
    (h : s.add a = .error e) : a.name ∈ s.names ∧ e = .duplicate a.name := by
  unfold add at h
  split at h
  · rename_i htaken
    exact ⟨List.contains_iff_mem.1 htaken, (Except.error.inj h).symm⟩
  · split at h <;> exact absurd h nofun

namespace RuleStore

open Loader (Request Records)

/-! ## Reading a resource -/

/-- A resource that could be read, after some failures. -/
structure Fetched where
  name : String
  failures : List FileError
  bytes : Bytes

namespace Fetched

/-- After each failure it was asked for again. -/
def requests (r : Fetched) : List Request :=
  r.failures.map (fun cause => .read r.name (.error cause)) ++ [.read r.name (.ok r.bytes)]

/-- The artifact it holds. -/
def artifact (r : Fetched) : Except StoreError Artifact :=
  (Blob.decode r.bytes).mapError (.ofBlob r.name)

end Fetched

/-- **A resource is read until that succeeds**, and as often as the limit says
before it counts as failed. -/
inductive Reads (limit : Nat) (name : String) : List Request → Except FileError Bytes → Prop where
  | succeeded (failures : List FileError) {bytes : Bytes} (h : failures.length < limit) :
    Reads limit name (Fetched.requests ⟨name, failures, bytes⟩) (.ok bytes)
  | failed (failures : List FileError) {cause : FileError} (h : failures.length + 1 = limit) :
    Reads limit name ((failures ++ [cause]).map fun cause => .read name (.error cause))
      (.error cause)

/-- One more failure uses up one more of the limit. -/
theorem Reads.again {limit : Nat} {name : String} {requests : List Request}
    {answer : Except FileError Bytes} (h : Reads limit name requests answer) (cause : FileError) :
    Reads (limit + 1) name (.read name (.error cause) :: requests) answer := by
  cases h with
  | succeeded failures h => exact .succeeded (cause :: failures) (Nat.succ_lt_succ h)
  | failed failures h => exact .failed (cause :: failures) (congrArg (· + 1) h)

variable {σ : Type} (store : RuleStore (StateM σ))

theorem records_readRetrying (loader : Loader (StateM σ)) (name : String) (retries : Nat) :
    Records (loader.recorded.readRetrying name retries) (loader.readRetrying name retries)
      (Reads (retries + 1) name) := by
  induction retries with
  | zero =>
    refine (loader.records_read name).mono fun requests answer hrequests => ?_
    subst hrequests
    cases answer with
    | ok bytes => exact .succeeded [] Nat.zero_lt_one
    | error cause => exact .failed [] rfl
  | succ retries ih =>
    refine (loader.records_read name).bind fun answer requests hrequests => ?_
    subst hrequests
    cases answer with
    | ok bytes => exact .pure (.succeeded [] (Nat.succ_pos _))
    | error cause => exact ih.mono fun _ _ h => h.again cause

/-- The store, with all that it asks its loader for written down. -/
def recorded : RuleStore (StateM (σ × List Request)) := ⟨store.loader.recorded, store.maxAttempts⟩

/-- What is asked for to have the artifact of a resource, and what comes of it. -/
inductive Opens (limit : Nat) (name : String) :
    List Request → Except StoreError Artifact → Prop where
  | fetched (failures : List FileError) {bytes : Bytes} (h : failures.length < limit) :
    Opens limit name (Fetched.requests ⟨name, failures, bytes⟩)
      (Fetched.artifact ⟨name, failures, bytes⟩)
  | unread (failures : List FileError) {cause : FileError} (h : failures.length + 1 = limit) :
    Opens limit name ((failures ++ [cause]).map fun cause => .read name (.error cause))
      (.error (.read name limit cause))

theorem records_artifact (name : String) :
    Records (store.recorded.artifact name) (store.artifact name) (Opens store.attempts name) := by
  have hattempts : store.attempts - 1 + 1 = store.attempts :=
    Nat.sub_add_cancel (Nat.le_max_left 1 store.maxAttempts)
  refine (records_readRetrying store.loader name (store.attempts - 1)).bind
    fun outcome requests hreads => ?_
  rw [hattempts] at hreads
  cases hreads with
  | succeeded failures h => exact .done (.fetched failures h)
  | failed failures h => exact .done (.unread failures h)

/-! ## Loading a set -/

/-- **Resources were read within the limit** and their artifacts added to a set, in
order. -/
structure Adds (limit : Nat) (s : RuleSet) (fetched : List Fetched) (s' : RuleSet) : Prop where
  withinLimit : ∀ r ∈ fetched, r.failures.length < limit
  added : ∃ artifacts, fetched.map (·.artifact) = artifacts.map .ok ∧ s.addAll artifacts = .ok s'

/-- **All that names stand for is read and added to a set**, up to the first failure:
a resource that cannot be read, one that holds no artifact, and one whose artifact
bears a name that is taken. -/
inductive Gathers (limit : Nat) (s : RuleSet) :
    List String → List Request → Except StoreError RuleSet → Prop where
  | all (fetched : List Fetched) {s' : RuleSet} (h : Adds limit s fetched s') :
    Gathers limit s (fetched.map (·.name)) (fetched.flatMap (·.requests)) (.ok s')
  | unread (fetched : List Fetched) {s' : RuleSet} {name : String} {rest : List String}
    {failures : List FileError} {cause : FileError} (h : Adds limit s fetched s')
    (hlast : failures.length + 1 = limit) :
    Gathers limit s (fetched.map (·.name) ++ name :: rest)
      (fetched.flatMap (·.requests) ++
        (failures ++ [cause]).map fun cause => .read name (.error cause))
      (.error (.read name limit cause))
  | undecoded (fetched : List Fetched) {s' : RuleSet} (last : Fetched) {rest : List String}
    {e : Blob.BlobError} (h : Adds limit s fetched s') (hlast : last.failures.length < limit)
    (hdecode : Blob.decode last.bytes = .error e) :
    Gathers limit s (fetched.map (·.name) ++ last.name :: rest)
      (fetched.flatMap (·.requests) ++ last.requests) (.error (.ofBlob last.name e))
  | taken (fetched : List Fetched) {s' : RuleSet} (last : Fetched) {rest : List String}
    {a : Artifact} (h : Adds limit s fetched s') (hlast : last.failures.length < limit)
    (hdecode : Blob.decode last.bytes = .ok a) (hname : a.name ∈ s'.names) :
    Gathers limit s (fetched.map (·.name) ++ last.name :: rest)
      (fetched.flatMap (·.requests) ++ last.requests) (.error (.duplicate a.name))

/-- **What a store without rules asks for, and what comes of it.** It lists the
resources, and goes on to all that is listed. -/
inductive Loads (limit : Nat) : List Request → Except StoreError RuleSet → Prop where
  | unlisted {cause : FileError} : Loads limit [.list (.error cause)] (.error (.files cause))
  | listed {names : List String} {requests : List Request} {answer : Except StoreError RuleSet}
    (h : Gathers limit .empty names requests answer) :
    Loads limit (.list (.ok names) :: requests) answer

variable {limit : Nat} {s s' : RuleSet}

theorem Adds.nil : Adds limit s [] s := ⟨nofun, [], rfl, rfl⟩

theorem Adds.cons {first : Fetched} {fetched : List Fetched} {a : Artifact} {next : RuleSet}
    (h : Adds limit next fetched s') (hlimit : first.failures.length < limit)
    (hfirst : first.artifact = .ok a) (hadd : s.add a = .ok next) :
    Adds limit s (first :: fetched) s' := by
  obtain ⟨hwithin, artifacts, hartifacts, hadded⟩ := h
  refine ⟨List.forall_mem_cons.2 ⟨hlimit, hwithin⟩, a :: artifacts, ?_, ?_⟩
  · rw [List.map_cons, List.map_cons, hfirst, hartifacts]
  · rw [RuleSet.addAll, List.foldlM_cons, hadd]
    exact hadded

/-- A resource that could be added comes before the others. -/
theorem Gathers.cons (first : Fetched) {a : Artifact} {next : RuleSet} {names : List String}
    {requests : List Request} {answer : Except StoreError RuleSet}
    (h : Gathers limit next names requests answer) (hlimit : first.failures.length < limit)
    (hfirst : first.artifact = .ok a) (hadd : s.add a = .ok next) :
    Gathers limit s (first.name :: names) (first.requests ++ requests) answer := by
  cases h with
  | all fetched h => exact .all (first :: fetched) (h.cons hlimit hfirst hadd)
  | unread fetched h hlast =>
    rw [← List.append_assoc]
    exact .unread (first :: fetched) (h.cons hlimit hfirst hadd) hlast
  | undecoded fetched last h hlast hdecode =>
    rw [← List.append_assoc]
    exact .undecoded (first :: fetched) last (h.cons hlimit hfirst hadd) hlast hdecode
  | taken fetched last h hlast hdecode hname =>
    rw [← List.append_assoc]
    exact .taken (first :: fetched) last (h.cons hlimit hfirst hadd) hlast hdecode hname

theorem records_loadAll (s : RuleSet) (names : List String) :
    Records (store.recorded.loadAll s names) (store.loadAll s names)
      (Gathers store.attempts s names) := by
  induction names generalizing s with
  | nil => exact .pure (.all [] .nil)
  | cons name rest ih =>
    refine (store.records_artifact name).bind fun answer requests hopens => ?_
    cases hopens with
    | unread failures hlimit => exact .done (.unread [] .nil hlimit)
    | @fetched failures bytes hlimit =>
      cases hdecode : Blob.decode bytes with
      | error e =>
        rw [Fetched.artifact, hdecode]
        exact .done (.undecoded [] ⟨name, failures, bytes⟩ .nil hlimit hdecode)
      | ok a =>
        rw [Fetched.artifact, hdecode]
        dsimp only [Except.mapError, Except.bind]
        cases hadd : s.add a with
        | error e =>
          obtain ⟨htaken, rfl⟩ := RuleSet.of_add_eq_error hadd
          exact .done (.taken [] ⟨name, failures, bytes⟩ .nil hlimit hdecode htaken)
        | ok next =>
          refine (ih next).mono fun rest answer hrest => ?_
          refine hrest.cons ⟨name, failures, bytes⟩ hlimit ?_ hadd
          rw [Fetched.artifact, hdecode]
          rfl

theorem records_load :
    Records store.recorded.load store.load (Loads store.attempts) := by
  refine store.loader.records_list.bind fun answer requests hrequests => ?_
  subst hrequests
  cases answer with
  | error cause => exact .pure .unlisted
  | ok names => exact (store.records_loadAll .empty names).mono fun _ _ h => .listed h

/-! ## Turns -/

/-- What one call comes to: what is asked for, what is answered, and what is kept
after it. -/
inductive Performs (limit : Nat) : Option RuleSet → Call → List Request →
    Option (Except StoreError RuleSet) × Option RuleSet → Prop where
  | remembered {s : RuleSet} : Performs limit (some s) .rules [] (some (.ok s), some s)
  | loaded {requests : List Request} {s : RuleSet} (h : Loads limit requests (.ok s)) :
    Performs limit none .rules requests (some (.ok s), some s)
  | failed {requests : List Request} {e : StoreError} (h : Loads limit requests (.error e)) :
    Performs limit none .rules requests (some (.error e), none)
  | forgotten {kept : Option RuleSet} : Performs limit kept .invalidate [] (none, none)

theorem records_rules (kept : Option RuleSet) :
    Records (store.recorded.rules kept) (store.rules kept) fun requests result =>
      Performs store.attempts kept .rules requests (some result.1, result.2) := by
  cases kept with
  | some s => exact .pure .remembered
  | none =>
    refine store.records_load.bind fun answer requests hloads => ?_
    cases answer with
    | ok s => exact .pure (by rw [List.append_nil]; exact .loaded hloads)
    | error e => exact .pure (by rw [List.append_nil]; exact .failed hloads)

theorem records_perform (kept : Option RuleSet) (call : Call) :
    Records (store.recorded.perform kept call) (store.perform kept call)
      (Performs store.attempts kept call) := by
  cases call with
  | invalidate => exact .pure .forgotten
  | rules => exact (store.records_rules kept).bind fun _ _ h => .done h

/-- A call, with all that it comes to. -/
structure Turn where
  call : Call
  requests : List Request
  answer : Option (Except StoreError RuleSet)
  kept : Option RuleSet

/-- What calls come to, one after the other, in some world. -/
def turns (kept : Option RuleSet) (world : σ) : List Call → List Turn
  | [] => []
  | call :: calls =>
    let ((answer, kept), (world, requests)) := store.recorded.perform kept call (world, [])
    ⟨call, requests, answer, kept⟩ :: turns kept world calls

theorem turns_cons (kept : Option RuleSet) (world : σ) (call : Call) (calls : List Call) :
    ∃ answer kept' world' requests,
      store.perform kept call world = ((answer, kept'), world') ∧
      Performs store.attempts kept call requests (answer, kept') ∧
      store.turns kept world (call :: calls) =
        ⟨call, requests, answer, kept'⟩ :: store.turns kept' world' calls := by
  obtain ⟨requests, hrecorded, h⟩ := store.records_perform kept call world []
  refine ⟨_, _, _, requests, rfl, h, ?_⟩
  rw [turns, hrecorded]
  rfl

/-- The turns are those of the calls. -/
theorem map_call_turns (kept : Option RuleSet) (world : σ) (calls : List Call) :
    (store.turns kept world calls).map (·.call) = calls := by
  induction calls generalizing kept world with
  | nil => rfl
  | cons call calls ih => exact congrArg (call :: ·) (ih _ _)

/-- The answers are those of the store when nothing is written down. -/
theorem map_answer_turns (kept : Option RuleSet) (world : σ) (calls : List Call) :
    (store.turns kept world calls).map (·.answer) = (store.performAll kept calls world).1.1 := by
  induction calls generalizing kept world with
  | nil => rfl
  | cons call calls ih =>
    obtain ⟨answer, kept', world', requests, hperform, -, hturns⟩ :=
      store.turns_cons kept world call calls
    rw [hturns, List.map_cons, ih]
    exact (congrArg (fun r => r.1.1 :: (store.performAll r.1.2 calls r.2).1.1) hperform).symm

/-- **The rules were answered, and not forgotten since.** -/
def Holding (history : List Turn) (s : RuleSet) : Prop :=
  ∃ before turn after, history = before ++ turn :: after ∧ turn.call = .rules ∧
    turn.answer = some (.ok s) ∧ ∀ t ∈ after, t.call ≠ .invalidate

theorem holding_concat {history : List Turn} {turn : Turn} :
    Holding (history ++ [turn]) s ↔
      turn.call = .rules ∧ turn.answer = some (.ok s) ∨
        turn.call ≠ .invalidate ∧ Holding history s := by
  constructor
  · rintro ⟨before, first, after, hhistory, hcall, hanswer, hafter⟩
    rcases List.eq_nil_or_concat after with rfl | ⟨after, last, rfl⟩
    · obtain ⟨-, rfl⟩ := List.append_singleton_inj.1 hhistory
      exact .inl ⟨hcall, hanswer⟩
    · rw [List.concat_eq_append] at hhistory hafter
      rw [← List.cons_append, ← List.append_assoc] at hhistory
      obtain ⟨rfl, rfl⟩ := List.append_singleton_inj.1 hhistory
      exact .inr ⟨hafter _ (List.mem_append_right _ (List.mem_singleton_self _)),
        before, first, after, rfl, hcall, hanswer, fun t ht => hafter t (List.mem_append_left _ ht)⟩
  · rintro (⟨hcall, hanswer⟩ | ⟨hcall, before, first, after, rfl, hfirst, hanswer, hafter⟩)
    · exact ⟨history, turn, [], rfl, hcall, hanswer, nofun⟩
    · refine ⟨before, first, after ++ [turn], ?_, hfirst, hanswer, fun t ht => ?_⟩
      · rw [← List.cons_append, ← List.append_assoc]
      · rcases List.mem_append.1 ht with ht | ht
        · exact hafter t ht
        · rwa [List.mem_singleton.1 ht]

/-- **What is kept is what the turns so far say**: the rules that were answered and
not forgotten, and these are a set that was loaded as a whole. -/
structure Keeps (limit : Nat) (history : List Turn) (kept : Option RuleSet) : Prop where
  holding : ∀ s, kept = some s ↔ Holding history s
  whole : ∀ s, kept = some s → ∃ turn ∈ history, Loads limit turn.requests (.ok s)

/-- **A turn is faithful to those before it.** -/
structure Turn.Faithful (limit : Nat) (history : List Turn) (turn : Turn) : Prop where
  /-- Rules that were not forgotten are answered again, and nothing is asked for. -/
  remembered : turn.call = .rules → ∀ s, Holding history s →
    turn.answer = some (.ok s) ∧ turn.requests = []
  /-- Otherwise all is listed and read anew. -/
  loaded : turn.call = .rules → (∀ s, ¬ Holding history s) →
    ∃ answer, turn.answer = some answer ∧ Loads limit turn.requests answer
  forgotten : turn.call = .invalidate → turn.answer = none ∧ turn.requests = []
  keeps : Keeps limit (history ++ [turn]) turn.kept

theorem keeps_nil (limit : Nat) : Keeps limit [] none where
  holding _ := ⟨nofun, fun ⟨_, _, _, h, _⟩ => absurd h (by simp)⟩
  whole := nofun

/-- **One call makes a faithful turn.** -/
theorem Keeps.faithful {history : List Turn} {kept kept' : Option RuleSet} {call : Call}
    {requests : List Request} {answer : Option (Except StoreError RuleSet)}
    (h : Keeps limit history kept)
    (hperforms : Performs limit kept call requests (answer, kept')) :
    Turn.Faithful limit history ⟨call, requests, answer, kept'⟩ := by
  have hnone (hkept : kept = none) (s : RuleSet) : ¬ Holding history s := fun hs => by
    rw [← h.holding, hkept] at hs
    exact absurd hs nofun
  cases hperforms with
  | @remembered s =>
    refine ⟨fun _ s' hs' => ?_, fun _ hall => absurd ((h.holding s).1 rfl) (hall s), nofun, ?_⟩
    · obtain rfl := Option.some.inj ((h.holding s').2 hs')
      exact ⟨rfl, rfl⟩
    · refine ⟨fun s' => ?_, fun s' hs' => ?_⟩
      · rw [holding_concat, ← h.holding]
        simp
      · obtain ⟨turn, hturn, hloads⟩ := h.whole s' hs'
        exact ⟨turn, List.mem_append_left _ hturn, hloads⟩
  | @loaded _ s hloads =>
    refine ⟨fun _ s' hs' => absurd hs' (hnone rfl s'), fun _ _ => ⟨_, rfl, hloads⟩, nofun, ?_⟩
    refine ⟨fun s' => ?_, fun s' hs' => ?_⟩
    · rw [holding_concat, ← h.holding]
      simp
    · obtain rfl := Option.some.inj hs'
      exact ⟨_, List.mem_append_right _ (List.mem_singleton_self _), hloads⟩
  | failed hloads =>
    refine ⟨fun _ s' hs' => absurd hs' (hnone rfl s'), fun _ _ => ⟨_, rfl, hloads⟩, nofun,
      fun s' => ?_, nofun⟩
    rw [holding_concat, ← h.holding]
    simp
  | forgotten =>
    refine ⟨nofun, nofun, fun _ => ⟨rfl, rfl⟩, fun s' => ?_, nofun⟩
    rw [holding_concat]
    simp

theorem Keeps.faithful_of_turns {history : List Turn} {kept : Option RuleSet}
    (h : Keeps store.attempts history kept) {world : σ} {calls : List Call}
    {before after : List Turn} {turn : Turn}
    (hturns : store.turns kept world calls = before ++ turn :: after) :
    turn.Faithful store.attempts (history ++ before) := by
  induction calls generalizing history kept world before with
  | nil => exact absurd hturns.symm (by simp [turns])
  | cons call calls ih =>
    obtain ⟨answer, kept', world', requests, -, hperforms, hcons⟩ :=
      store.turns_cons kept world call calls
    have hfirst := h.faithful hperforms
    rw [hcons] at hturns
    cases before with
    | nil =>
      obtain ⟨rfl, -⟩ := List.cons.inj hturns
      rwa [List.append_nil]
    | cons first before =>
      obtain ⟨rfl, hrest⟩ := List.cons.inj hturns
      rw [List.append_cons]
      exact ih hfirst.keeps hrest

/-- **A rule store is never half loaded and remembers faithfully**, however its
loader answers. There is a turn for each call, with the answer that the store gives
to it, and each is faithful to those before it. -/
theorem faithful_turns (world : σ) (calls : List Call) :
    (store.turns none world calls).map (·.call) = calls ∧
      (store.turns none world calls).map (·.answer) = (store.performAll none calls world).1.1 ∧
      ∀ before turn after, store.turns none world calls = before ++ turn :: after →
        turn.Faithful (max 1 store.maxAttempts) before :=
  ⟨store.map_call_turns none world calls, store.map_answer_turns none world calls,
    fun _ _ _ hturns => (keeps_nil store.attempts).faithful_of_turns store hturns⟩

/-! ## A loader that fails at first -/

/-- A resource that holds a rule. It can be listed, and read, at the second try. -/
def flakyResources : MemoryResources where
  blobs := Dict.ofList [("sum.rule", Blob.encode (.rule Blob.zeroSum))]
  failingReads := 1
  failingLists := 1
  reads := 0
  lists := 0

/-- A store that reads each resource twice at most. -/
def flakyStore : RuleStore (StateM MemoryResources) := ⟨MemoryResources.loader, 2⟩

/-- Once the rules could be loaded, they are remembered. -/
theorem turns_flakyStore : ∃ first second third s,
    flakyStore.turns none flakyResources [.rules, .rules, .rules] = [first, second, third] ∧
      first.answer = some (.error (.files ⟨"list failed"⟩)) ∧
      second.answer = some (.ok s) ∧ s.names = ["com.example.ZeroSum"] ∧
      Loads 2 second.requests (.ok s) ∧ third.answer = some (.ok s) ∧ third.requests = [] := by
  have hnames : (flakyStore.performAll none [.rules, .rules, .rules] flakyResources).1.1.map
      (Option.map (Except.map RuleSet.names)) =
        [some (.error (.files ⟨"list failed"⟩)), some (.ok ["com.example.ZeroSum"]),
          some (.ok ["com.example.ZeroSum"])] := by
    decide +kernel
  obtain ⟨hcalls, hanswers, hfaithful⟩ :=
    flakyStore.faithful_turns flakyResources [.rules, .rules, .rules]
  obtain ⟨first, second, third, hturns⟩ := List.length_eq_three.1 <|
    (List.length_map _).symm.trans (congrArg List.length hcalls)
  rw [hturns] at hcalls hanswers
  rw [← hanswers] at hnames
  simp only [List.map_cons, List.map_nil, List.cons.injEq, and_true] at hcalls hnames
  obtain ⟨hfirst, hsecond, -⟩ := hnames
  obtain ⟨s, hs, hsnames⟩ : ∃ s, second.answer = some (.ok s) ∧
      s.names = ["com.example.ZeroSum"] := by
    obtain ⟨answer, hanswer, hmap⟩ := Option.map_eq_some_iff.1 hsecond
    cases answer with
    | error e => exact absurd hmap nofun
    | ok s => exact ⟨s, hanswer, Except.ok.inj hmap⟩
  have herror : first.answer = some (.error (.files ⟨"list failed"⟩)) := by
    obtain ⟨answer, hanswer, hmap⟩ := Option.map_eq_some_iff.1 hfirst
    cases answer with
    | error e => rw [hanswer, Except.error.inj hmap]
    | ok s => exact absurd hmap nofun
  -- After the failure there is nothing to remember.
  have hnothing (s : RuleSet) : ¬ Holding [first] s := fun h => by
    rw [← List.nil_append [first], holding_concat] at h
    rcases h with ⟨-, hok⟩ | ⟨-, h⟩
    · rw [herror] at hok
      exact absurd hok nofun
    · exact absurd (((keeps_nil 2).holding s).2 h) nofun
  obtain ⟨answer, hanswer, hloads⟩ :=
    (hfaithful [first] second [third] hturns).loaded hcalls.2.1 hnothing
  obtain rfl := Option.some.inj (hs.symm.trans hanswer)
  have hremembered := (hfaithful [first, second] third [] hturns).remembered hcalls.2.2 s
    ⟨[first], second, [], rfl, hcalls.2.1, hs, nofun⟩
  exact ⟨first, second, third, s, hturns, herror, hs, hsnames, hloads, hremembered⟩

end RuleStore

end Codemod
