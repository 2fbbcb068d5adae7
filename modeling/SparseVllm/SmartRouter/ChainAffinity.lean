import Mathlib.Data.List.Basic
import Mathlib.Data.List.Induction
import Mathlib.Tactic.Common

/-!
# Routing a request that names a chain (`entrypoints/openai/smart_router.py`)

The router asks every worker for its info, keeps those that answered and serve the requested model,
and asks these who owns the chain. A worker that cannot be probed is an error; one that did not answer
the first question is dropped, and the others decide without it.

A worker carries what it would answer beside whether it can be asked. `_select_chain_owner` also
marks a worker it cannot probe as unhealthy; the next request refreshes that mark before it is read,
and it is left out.

## Results

* `selectChain_cases`: the answer, in terms of the workers that answered the first question.
* **`selectChain_complete_iff`**: the answer is based on complete knowledge iff every worker of the
  model answered, or the others do not settle it.
-/

namespace SparseVllm.SmartRouter

/-! ## Workers -/

/-- `worker.info`; the fields that only other routes read are left out. -/
structure WorkerInfo where
  servedModelName : Option String := none
  deriving DecidableEq

/-- What the router keeps of a worker. -/
structure WorkerState where
  url : String
  info : WorkerInfo := {}
  healthy : Bool := true
  lastError : Option String := none
  deriving DecidableEq

/-- A reply of `/v1/chain_cache/routing_match`; a missing state is the empty string. -/
structure ChainMatch where
  enabled : Bool := true
  present : Bool := false
  tombstone : Bool := false
  state : String := ""
  deriving DecidableEq

/-- A configured worker during a request: what it says of itself and of a chain, and the errors of the
requests that do not reach it. -/
structure Worker where
  state : WorkerState
  info : WorkerInfo := {}
  infoError : Option String := none
  chain : String → ChainMatch := fun _ => {}
  probeError : Option String := none

namespace Worker

/-- `_get_json(f"{worker.url}/v1/worker/info")`. -/
def getInfo (worker : Worker) : Except String WorkerInfo :=
  match worker.infoError with
  | some error => .error error
  | none => .ok worker.info

/-- `_post_json(f"{worker.url}/v1/chain_cache/routing_match", {"chain_id": chain_id})`. -/
def routingMatch (worker : Worker) (chainId : String) : Except String ChainMatch :=
  match worker.probeError with
  | some error => .error error
  | none => .ok (worker.chain chainId)

/-- The body of the loop of `refresh_worker_info`. -/
def refreshed (worker : Worker) : Worker :=
  match worker.getInfo with
  | .error error =>
    { worker with state := { worker.state with healthy := false, lastError := some error } }
  | .ok info =>
    { worker with state := { worker.state with info, healthy := true, lastError := none } }

end Worker

/-- `requested_model is None or served is None or served == requested_model`. -/
def matchesModel (requestedModel : Option String) (info : WorkerInfo) : Bool :=
  requestedModel.isNone || info.servedModelName.isNone || info.servedModelName == requestedModel

/-- `refresh_worker_info`. -/
def refreshWorkerInfo (workers : List Worker) : List Worker := workers.map Worker.refreshed

/-- The candidates for a chain request. -/
def chainCandidates (requestedModel : Option String) (workers : List Worker) : List Worker :=
  workers.filter fun worker =>
    worker.state.healthy && matchesModel requestedModel worker.state.info

/-! ## The owner of a chain -/

/-- The details of the errors. -/
inductive Detail where
  | noHealthyWorker
  | probesFailed (probeErrors : List (String × String))
  | notEnabled
  | duplicateOwners (chainId : String) (urls : List String)
  | evicted (chainId : String)
  | unknownChain (chainId : String)
  | activeWriter (chainId : String)
  | invalidState (chainId url state : String)
  deriving DecidableEq

/-- `HTTPException`. -/
structure HttpException where
  statusCode : Nat
  detail : Detail
  deriving DecidableEq

/-- An entry of `chain_probes`. -/
structure ChainProbe where
  workerUrl : String
  result : Except String ChainMatch

/-- The variables of the loop of `_select_chain_owner`. -/
structure ChainScan where
  chainMatches : List ChainProbe := []
  owners : List (Worker × ChainMatch) := []
  tombstoned : Bool := false
  probeErrors : List (String × String) := []
  enabledWorkers : Nat := 0

/-- The body of the loop of `_select_chain_owner`. -/
def scanReply (chainId : String) (scan : ChainScan) (worker : Worker) : ChainScan :=
  match worker.routingMatch chainId with
  | .error error =>
    { scan with
      chainMatches := scan.chainMatches ++ [{ workerUrl := worker.state.url, result := .error error }]
      probeErrors := scan.probeErrors ++ [(worker.state.url, error)] }
  | .ok reply =>
    { scan with
      chainMatches := scan.chainMatches ++ [{ workerUrl := worker.state.url, result := .ok reply }]
      enabledWorkers := scan.enabledWorkers + reply.enabled.toNat
      tombstoned := scan.tombstoned || reply.tombstone
      owners := if reply.present then scan.owners ++ [(worker, reply)] else scan.owners }

/-- What `_select_chain_owner` makes of the replies. -/
def decideOwner (chainId : String) (scan : ChainScan) :
    Except HttpException (Worker × List ChainProbe) :=
  if !scan.probeErrors.isEmpty then .error ⟨503, .probesFailed scan.probeErrors⟩
  else if scan.enabledWorkers = 0 then .error ⟨400, .notEnabled⟩
  else
    match scan.owners with
    | [] =>
      if scan.tombstoned then .error ⟨410, .evicted chainId⟩ else .error ⟨404, .unknownChain chainId⟩
    | [(worker, reply)] =>
      if reply.state = "active" then .error ⟨409, .activeWriter chainId⟩
      else if reply.state ≠ "idle" then
        .error ⟨500, .invalidState chainId worker.state.url reply.state⟩
      else .ok (worker, scan.chainMatches)
    | owners => .error ⟨500, .duplicateOwners chainId (owners.map fun owner => owner.1.state.url)⟩

/-- `_select_chain_owner`. -/
def selectChainOwner (chainId : String) (candidates : List Worker) :
    Except HttpException (Worker × List ChainProbe) :=
  decideOwner chainId (candidates.foldl (scanReply chainId) {})

/-- `select_worker`, for a payload with a chain id that is not blank. -/
def selectChain (requestedModel : Option String) (chainId : String) (workers : List Worker) :
    Except HttpException (Worker × List ChainProbe) :=
  let candidates := chainCandidates requestedModel (refreshWorkerInfo workers)
  if candidates.isEmpty then .error ⟨503, .noHealthyWorker⟩
  else selectChainOwner chainId candidates

/-! ## Complete knowledge -/

namespace Worker

/-- The worker is one of the requested model. -/
def Serves (requestedModel : Option String) (worker : Worker) : Prop :=
  matchesModel requestedModel worker.info = true

/-- The worker owns the chain. -/
def Owns (chainId : String) (worker : Worker) : Prop :=
  (worker.chain chainId).present = true

/-- The worker answers both questions. -/
def Asked (worker : Worker) : Prop := worker.infoError = none ∧ worker.probeError = none

end Worker

/-- What a client relies on: a request goes to the only owner, which is idle; a chain is denied only if
no worker of the model owns it; and when a worker of the model could not be asked, neither happens. -/
structure Complete (requestedModel : Option String) (chainId : String) (workers : List Worker)
    (answer : Except HttpException (Worker × List ChainProbe)) : Prop where
  forwards : ∀ worker probes, answer = .ok (worker, probes) → ∃ before owner after,
    workers = before ++ owner :: after ∧ worker = owner.refreshed ∧ owner.Serves requestedModel ∧
      owner.Owns chainId ∧ (owner.chain chainId).state = "idle" ∧
      ∀ other ∈ before ++ after, other.Serves requestedModel → ¬ other.Owns chainId
  denies : ∀ exc, answer = .error exc → exc.statusCode = 404 ∨ exc.statusCode = 410 →
    ∀ worker ∈ workers, worker.Serves requestedModel → ¬ worker.Owns chainId
  incomplete : (∃ worker ∈ workers, worker.Serves requestedModel ∧ ¬ worker.Asked) →
    ∃ exc, answer = .error exc ∧ exc.statusCode ≠ 404 ∧ exc.statusCode ≠ 410

/-- The workers of the model that answer the first question. -/
def informed (requestedModel : Option String) (workers : List Worker) : List Worker :=
  workers.filter fun worker => worker.infoError.isNone && matchesModel requestedModel worker.info

/-- These workers settle who owns the chain: all answer, the cache is enabled on one, and there is no
owner, or one that is idle. -/
structure Settles (chainId : String) (asked : List Worker) : Prop where
  nonempty : asked ≠ []
  probed : ∀ worker ∈ asked, worker.probeError = none
  enabled : ∃ worker ∈ asked, (worker.chain chainId).enabled = true
  owner : (∀ worker ∈ asked, ¬ worker.Owns chainId) ∨
    ∃ worker, asked.filter (fun worker => (worker.chain chainId).present) = [worker] ∧
      (worker.chain chainId).state = "idle"

/-! ## The answer -/

variable {requestedModel : Option String} {chainId : String} {workers asked : List Worker}
  {worker : Worker}

@[simp] theorem chain_refreshed (worker : Worker) : worker.refreshed.chain = worker.chain := by
  unfold Worker.refreshed
  split <;> rfl

@[simp] theorem probeError_refreshed (worker : Worker) :
    worker.refreshed.probeError = worker.probeError := by
  unfold Worker.refreshed
  split <;> rfl

theorem refreshed_candidate (requestedModel : Option String) (worker : Worker) :
    (worker.refreshed.state.healthy && matchesModel requestedModel worker.refreshed.state.info) =
      (worker.infoError.isNone && matchesModel requestedModel worker.info) := by
  unfold Worker.refreshed Worker.getInfo
  cases worker.infoError <;> simp

/-- The candidates are the workers of the model that answered. -/
theorem chainCandidates_refreshWorkerInfo (requestedModel : Option String) (workers : List Worker) :
    chainCandidates requestedModel (refreshWorkerInfo workers) =
      (informed requestedModel workers).map Worker.refreshed := by
  unfold chainCandidates refreshWorkerInfo informed
  rw [List.filter_map]
  exact congrArg (List.map Worker.refreshed)
    (List.filter_congr fun worker _ => refreshed_candidate requestedModel worker)

/-- A failed probe leaves an error. -/
theorem scan_probeErrors (chainId : String) (asked : List Worker) :
    (asked.foldl (scanReply chainId) {}).probeErrors = [] ↔
      ∀ worker ∈ asked, worker.probeError = none := by
  induction asked using List.reverseRecOn with
  | nil => simp
  | append_singleton asked worker ih =>
    rw [List.foldl_append, List.forall_mem_append, List.forall_mem_singleton, ← ih]
    simp only [List.foldl_cons, List.foldl_nil]
    unfold scanReply Worker.routingMatch
    cases hprobe : worker.probeError with
    | some error => simp
    | none => simp

/-- What the loop has collected when every probe was answered. -/
theorem scan_probed (chainId : String) (h : ∀ worker ∈ asked, worker.probeError = none) :
    (asked.foldl (scanReply chainId) {}).owners =
        (asked.filter fun worker => (worker.chain chainId).present).map
          (fun worker => (worker, worker.chain chainId)) ∧
      (asked.foldl (scanReply chainId) {}).enabledWorkers =
        asked.countP fun worker => (worker.chain chainId).enabled := by
  induction asked using List.reverseRecOn with
  | nil => exact ⟨rfl, rfl⟩
  | append_singleton asked worker ih =>
    rw [List.forall_mem_append, List.forall_mem_singleton] at h
    obtain ⟨howners, henabled⟩ := ih h.1
    have hreply : worker.routingMatch chainId = .ok (worker.chain chainId) := by
      unfold Worker.routingMatch
      rw [h.2]
    rw [List.foldl_append, List.filter_append, List.map_append, List.countP_append, List.foldl_cons,
      List.foldl_nil, ← howners, ← henabled]
    unfold scanReply
    rw [hreply]
    constructor
    · by_cases howns : (worker.chain chainId).present = true <;> simp [howns]
    · cases henabled : (worker.chain chainId).enabled <;> simp [henabled]

/-- The owners the loop finds among the candidates. -/
theorem scan_owners (chainId : String) (h : ∀ worker ∈ asked, worker.probeError = none) :
    ((asked.map Worker.refreshed).foldl (scanReply chainId) {}).owners =
      (asked.filter fun worker => (worker.chain chainId).present).map
        fun worker => (worker.refreshed, worker.chain chainId) := by
  have hmap : ∀ worker ∈ asked.map Worker.refreshed, worker.probeError = none := by
    rw [List.forall_mem_map]
    simpa using h
  have howns : (fun worker => (worker.chain chainId).present) ∘ Worker.refreshed =
      fun worker : Worker => (worker.chain chainId).present := by
    funext worker
    exact congrArg (fun chain => (chain chainId).present) (chain_refreshed worker)
  rw [(scan_probed chainId hmap).1, List.filter_map, howns, List.map_map]
  exact List.map_congr_left fun worker _ => by simp

theorem scan_enabled (chainId : String) (h : ∀ worker ∈ asked, worker.probeError = none) :
    ((asked.map Worker.refreshed).foldl (scanReply chainId) {}).enabledWorkers = 0 ↔
      ¬ ∃ worker ∈ asked, (worker.chain chainId).enabled = true := by
  have hmap : ∀ worker ∈ asked.map Worker.refreshed, worker.probeError = none := by
    rw [List.forall_mem_map]
    simpa using h
  rw [(scan_probed chainId hmap).2, List.countP_eq_zero]
  simp

/-- When every candidate answers and the cache is enabled on one, the owners decide. -/
theorem decideOwner_probed (chainId : String) (h : ∀ worker ∈ asked, worker.probeError = none)
    (henabled : ∃ worker ∈ asked, (worker.chain chainId).enabled = true) :
    (∀ worker ∈ asked, ¬ worker.Owns chainId) ∧
        (∃ exc, selectChainOwner chainId (asked.map Worker.refreshed) = .error exc ∧
          (exc.statusCode = 404 ∨ exc.statusCode = 410)) ∨
      ∃ owner rest, asked.filter (fun worker => (worker.chain chainId).present) = owner :: rest ∧
        if rest = [] ∧ (owner.chain chainId).state = "idle" then
          ∃ probes, selectChainOwner chainId (asked.map Worker.refreshed) =
            .ok (owner.refreshed, probes)
        else ∃ exc, selectChainOwner chainId (asked.map Worker.refreshed) = .error exc ∧
          exc.statusCode ≠ 404 ∧ exc.statusCode ≠ 410 := by
  have hprobes : ((asked.map Worker.refreshed).foldl (scanReply chainId) {}).probeErrors = [] := by
    rw [scan_probeErrors, List.forall_mem_map]
    simpa using h
  have hsome : ((asked.map Worker.refreshed).foldl (scanReply chainId) {}).enabledWorkers ≠ 0 :=
    fun hzero => (scan_enabled chainId h).mp hzero henabled
  have howners := scan_owners chainId h
  unfold selectChainOwner decideOwner
  generalize (asked.map Worker.refreshed).foldl (scanReply chainId) {} = scan
    at hprobes hsome howners
  rw [hprobes, if_neg (by decide), if_neg hsome, howners]
  cases hfilter : asked.filter fun worker => (worker.chain chainId).present with
  | nil =>
    refine Or.inl ⟨fun worker hworker howns => ?_, ?_⟩
    · have hin : worker ∈ asked.filter fun worker => (worker.chain chainId).present :=
        List.mem_filter.mpr ⟨hworker, howns⟩
      rw [hfilter] at hin
      cases hin
    · cases scan.tombstoned with
      | true => exact ⟨_, rfl, Or.inr rfl⟩
      | false => exact ⟨_, rfl, Or.inl rfl⟩
  | cons owner rest =>
    refine Or.inr ⟨owner, rest, rfl, ?_⟩
    cases rest with
    | cons other rest =>
      rw [if_neg (fun hidle => List.cons_ne_nil _ _ hidle.1)]
      exact ⟨_, rfl, by simp, by simp⟩
    | nil =>
      by_cases hidle : (owner.chain chainId).state = "idle"
      · rw [if_pos ⟨rfl, hidle⟩]
        refine ⟨scan.chainMatches, ?_⟩
        simp [hidle]
      · rw [if_neg (fun h => hidle h.2)]
        by_cases hactive : (owner.chain chainId).state = "active"
        · exact ⟨⟨409, .activeWriter chainId⟩, by simp [hactive], by simp, by simp⟩
        · exact ⟨⟨500, .invalidState chainId owner.refreshed.state.url (owner.chain chainId).state⟩,
            by simp [hactive, hidle], by simp, by simp⟩

/-- **The answer, from the workers that answered the first question.** Either these do not settle the
owner and it is another error, or there is no owner and the chain is denied, or the owner is idle and
gets the request. -/
theorem selectChain_cases (requestedModel : Option String) (chainId : String)
    (workers : List Worker) :
    (¬ Settles chainId (informed requestedModel workers) ∧
      ∃ exc, selectChain requestedModel chainId workers = .error exc ∧
        exc.statusCode ≠ 404 ∧ exc.statusCode ≠ 410) ∨
    (Settles chainId (informed requestedModel workers) ∧
      (∀ worker ∈ informed requestedModel workers, ¬ worker.Owns chainId) ∧
      ∃ exc, selectChain requestedModel chainId workers = .error exc ∧
        (exc.statusCode = 404 ∨ exc.statusCode = 410)) ∨
    (Settles chainId (informed requestedModel workers) ∧ ∃ owner probes,
      (informed requestedModel workers).filter (fun worker => (worker.chain chainId).present) =
        [owner] ∧
      (owner.chain chainId).state = "idle" ∧
      selectChain requestedModel chainId workers = .ok (owner.refreshed, probes)) := by
  unfold selectChain
  rw [chainCandidates_refreshWorkerInfo]
  generalize informed requestedModel workers = asked
  by_cases hnil : asked = []
  · subst hnil
    exact Or.inl ⟨fun h => h.nonempty rfl, _, rfl, by decide, by decide⟩
  rw [if_neg (by simpa using hnil)]
  by_cases hprobed : ∀ worker ∈ asked, worker.probeError = none
  case neg =>
    have hfailed : ((asked.map Worker.refreshed).foldl (scanReply chainId) {}).probeErrors ≠ [] := by
      rw [Ne, scan_probeErrors, List.forall_mem_map]
      simpa using hprobed
    refine Or.inl ⟨fun h => hprobed h.probed, ?_⟩
    unfold selectChainOwner decideOwner
    rw [if_pos (by simpa using hfailed)]
    exact ⟨_, rfl, by simp, by simp⟩
  by_cases henabled : ∃ worker ∈ asked, (worker.chain chainId).enabled = true
  case neg =>
    refine Or.inl ⟨fun h => henabled h.enabled, ?_⟩
    have hprobes : ((asked.map Worker.refreshed).foldl (scanReply chainId) {}).probeErrors = [] := by
      rw [scan_probeErrors, List.forall_mem_map]
      simpa using hprobed
    unfold selectChainOwner decideOwner
    rw [hprobes, if_neg (by decide), if_pos ((scan_enabled chainId hprobed).mpr henabled)]
    exact ⟨_, rfl, by decide, by decide⟩
  rcases decideOwner_probed chainId hprobed henabled with ⟨hnone, hdenied⟩ |
    ⟨owner, rest, hfilter, hanswer⟩
  · exact Or.inr (Or.inl ⟨⟨hnil, hprobed, henabled, Or.inl hnone⟩, hnone, hdenied⟩)
  · by_cases hidle : rest = [] ∧ (owner.chain chainId).state = "idle"
    · rw [if_pos hidle] at hanswer
      obtain ⟨probes, hforward⟩ := hanswer
      rw [hidle.1] at hfilter
      have hsettles : Settles chainId asked :=
        ⟨hnil, hprobed, henabled, Or.inr ⟨owner, hfilter, hidle.2⟩⟩
      exact Or.inr (Or.inr ⟨hsettles, owner, probes, hfilter, hidle.2, hforward⟩)
    · rw [if_neg hidle] at hanswer
      refine Or.inl ⟨fun hsettles => ?_, hanswer⟩
      rcases hsettles.owner with hnone | ⟨other, hother, hstate⟩
      · have howner : owner ∈ asked.filter fun worker => (worker.chain chainId).present := by
          rw [hfilter]
          exact List.mem_cons_self
        exact hnone owner (List.mem_filter.mp howner).1 ((List.mem_filter.mp howner).2)
      · rw [hfilter, List.cons.injEq] at hother
        exact hidle ⟨hother.2, hother.1 ▸ hstate⟩

/-- A request that goes to a worker, or a chain that is denied, needs an answer from every worker that
was asked. -/
theorem not_complete {answer : Except HttpException (Worker × List ChainProbe)}
    (h : Complete requestedModel chainId workers answer)
    (hsilent : ∃ worker ∈ workers, worker.Serves requestedModel ∧ ¬ worker.Asked) :
    (∀ forwarded, answer ≠ .ok forwarded) ∧
      ∀ exc, answer = .error exc → ¬ (exc.statusCode = 404 ∨ exc.statusCode = 410) := by
  obtain ⟨exc, rfl, hunknown, hevicted⟩ := h.incomplete hsilent
  refine ⟨nofun, fun exc' hexc => ?_⟩
  cases hexc
  exact not_or.mpr ⟨hunknown, hevicted⟩

/-- When every worker of the model answered, the owner among them is the only one. -/
theorem sole_owner {owner : Worker}
    (hinformed : ∀ worker ∈ workers, worker.Serves requestedModel → worker.infoError = none)
    (hfilter : (informed requestedModel workers).filter
      (fun worker => (worker.chain chainId).present) = [owner]) :
    ∃ before after, workers = before ++ owner :: after ∧ owner.Serves requestedModel ∧
      owner.Owns chainId ∧
      ∀ other ∈ before ++ after, other.Serves requestedModel → ¬ other.Owns chainId := by
  unfold informed at hfilter
  rw [List.filter_filter, List.filter_eq_cons_iff] at hfilter
  obtain ⟨before, after, rfl, hbefore, howner, hafter⟩ := hfilter
  rw [Bool.and_eq_true_iff, Bool.and_eq_true_iff] at howner
  refine ⟨before, after, rfl, howner.2.2, howner.1, fun other hother hserves howns => ?_⟩
  have hknown : other.infoError = none := by
    refine hinformed other ?_ hserves
    rcases List.mem_append.mp hother with hin | hin
    · exact List.mem_append_left _ hin
    · exact List.mem_append_right _ (List.mem_cons_of_mem _ hin)
  have hkept : ((other.chain chainId).present &&
      (other.infoError.isNone && matchesModel requestedModel other.info)) = true := by
    rw [howns, hknown, hserves]
    rfl
  rcases List.mem_append.mp hother with hin | hin
  · exact hbefore other hin hkept
  · exact List.filter_eq_nil_iff.mp hafter other hin hkept

/-- **A chain request is routed on complete knowledge iff every worker of the model answered the
refresh, or the ones that did do not settle the owner.** -/
theorem selectChain_complete_iff (requestedModel : Option String) (chainId : String)
    (workers : List Worker) :
    Complete requestedModel chainId workers (selectChain requestedModel chainId workers) ↔
      (∀ worker ∈ workers, worker.Serves requestedModel → worker.infoError = none) ∨
        ¬ Settles chainId (informed requestedModel workers) := by
  constructor
  · intro hcomplete
    by_contra hfalse
    rw [not_or, not_not] at hfalse
    obtain ⟨hsilent, hsettles⟩ := hfalse
    push Not at hsilent
    obtain ⟨worker, hworker, hserves, hinfo⟩ := hsilent
    obtain ⟨hforward, hdeny⟩ :=
      not_complete hcomplete ⟨worker, hworker, hserves, fun hasked => hinfo hasked.1⟩
    rcases selectChain_cases requestedModel chainId workers with ⟨hnot, -⟩ |
      ⟨-, -, exc, hanswer, hstatus⟩ | ⟨-, owner, probes, -, -, hanswer⟩
    · exact hnot hsettles
    · exact hdeny exc hanswer hstatus
    · exact hforward _ hanswer
  · intro hknown
    rcases selectChain_cases requestedModel chainId workers with
      ⟨-, exc, hanswer, hunknown, hevicted⟩ | ⟨hsettles, hnone, exc, hanswer, -⟩ |
      ⟨hsettles, owner, probes, hfilter, hidle, hanswer⟩
    · rw [hanswer]
      refine ⟨nofun, fun exc' hexc hstatus => ?_, fun _ => ⟨exc, rfl, hunknown, hevicted⟩⟩
      cases hexc
      rcases hstatus with hstatus | hstatus
      · exact absurd hstatus hunknown
      · exact absurd hstatus hevicted
    all_goals
      have hinformed := hknown.resolve_right (not_not.mpr hsettles)
      have hin : ∀ worker ∈ workers, worker.Serves requestedModel →
          worker ∈ informed requestedModel workers := by
        intro worker hworker hserves
        refine List.mem_filter.mpr ⟨hworker, ?_⟩
        rw [hinformed worker hworker hserves, hserves]
        rfl
      have hasked : ¬ ∃ worker ∈ workers, worker.Serves requestedModel ∧ ¬ worker.Asked := by
        rintro ⟨worker, hworker, hserves, hnot⟩
        exact hnot ⟨hinformed worker hworker hserves,
          hsettles.probed worker (hin worker hworker hserves)⟩
      rw [hanswer]
    · exact ⟨nofun, fun _ _ _ worker hworker hserves => hnone worker (hin worker hworker hserves),
        fun h => absurd h hasked⟩
    · refine ⟨fun worker probes' hforward => ?_, nofun, fun h => absurd h hasked⟩
      cases hforward
      obtain ⟨before, after, hworkers, hserves, howns, hothers⟩ := sole_owner hinformed hfilter
      exact ⟨before, owner, after, hworkers, rfl, hserves, howns, hidle, hothers⟩

/-- The owner does not answer the refresh, the other worker has never seen the chain: the chain is
denied. -/
theorem silent_owner_denied : ¬ Complete none "chain"
    [{ state := { url := "a" }, infoError := some "URLError"
       chain := fun _ => { present := true, state := "idle" } },
      { state := { url := "b" } }]
    (selectChain none "chain"
      [{ state := { url := "a" }, infoError := some "URLError"
         chain := fun _ => { present := true, state := "idle" } },
        { state := { url := "b" } }]) := by
  intro hcomplete
  have hnot := hcomplete.denies ⟨404, .unknownChain "chain"⟩ rfl (Or.inl rfl) _
    List.mem_cons_self rfl
  exact hnot rfl

end SparseVllm.SmartRouter
