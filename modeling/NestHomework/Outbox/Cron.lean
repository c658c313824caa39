import Mathlib.Tactic
import NestHomework.Outbox.Worker
import NestHomework.Transition.Run

/-! `processOutbox` from tick to tick. Every call of it runs on its own between its awaits, and the
flag `isProcessing` is all that keeps two of them apart. -/
namespace NestHomework.Outbox
open Contracts Transition

/-- A row of `outbox_events`; the worker does not look at its `content`. -/
structure Row (α : Type) where
  id : Uuid
  content : α
  createdAt : ℕ
  processed : Bool
  deriving DecidableEq, Repr

/-- What a call of `processOutbox` waits for. -/
inductive Stage (α : Type) where
  | findEvents
  | publishEvent (event : Row α) (rest : List (Row α)) (processedIds : List Uuid)
  | markEventsAsProcessed (processedIds : List Uuid)
  deriving DecidableEq, Repr

/-- A call of `processOutbox` that got past the flag. -/
structure Batch (α : Type) where
  number : ℕ
  stage : Stage α
  deriving DecidableEq, Repr

/-- A `publishEvent` that succeeded. -/
structure Success where
  batch : ℕ
  id : Uuid
  deriving DecidableEq, Repr

/-- A worker and its table. The last three fields only record what has happened. -/
structure Cron (α : Type) where
  rows : List (Row α)
  isProcessing : Bool
  running : List (Batch α)
  started : ℕ
  published : List Success
  failedMarks : List ℕ
  deriving DecidableEq, Repr

inductive MarkResult where
  | done
  | failed
  /-- The update is committed and the call throws. -/
  | failedAfterCommit
  deriving DecidableEq, Repr

inductive CronAction (α : Type) where
  | insert (id : Uuid) (content : α) (createdAt : ℕ)
  | tick
  /-- `findEvents` returns the first rows of the unprocessed ones in some order, or it fails. -/
  | found (number : ℕ) (order : Option (List (Row α)))
  | published (number : ℕ) (succeeds : Bool)
  | marked (number : ℕ) (result : MarkResult)

variable {α : Type}

/-- `updateMany .. SET processed = true WHERE id IN (..)` -/
def markEventsAsProcessed (ids : List Uuid) (rows : List (Row α)) : List (Row α) :=
  rows.map (fun r => if ids.contains r.id then {r with processed := true} else r)

/-- The rest of the loop over the events, and what follows it. -/
def nextStage : List (Row α) → List Uuid → Option (Stage α)
  | event::rest, processedIds => some (.publishEvent event rest processedIds)
  | [], [] => none
  | [], id::processedIds => some (.markEventsAsProcessed (id::processedIds))

namespace Cron

def initial : Cron α := ⟨[],false,[],0,[],[]⟩

def stage (s : Cron α) (number : ℕ) : Option (Stage α) :=
  (s.running.find? (fun b => b.number = number)).map (·.stage)

/-- The batch goes on to its next await, or through `finally` to its end. -/
def proceed (s : Cron α) (number : ℕ) : Option (Stage α) → Cron α
  | some stage =>
    {s with running := s.running.map (fun b => if b.number = number then ⟨number,stage⟩ else b)}
  | none =>
    {s with running := s.running.filter (fun b => b.number ≠ number), isProcessing := false}

/-- `WHERE processed = false ORDER BY created_at ASC`: rows of one moment come in any order. -/
def IsOrder (s : Cron α) (order : List (Row α)) : Prop :=
  order.Perm (s.rows.filter (fun r => !r.processed)) ∧
    order.Pairwise (fun r r' => r.createdAt ≤ r'.createdAt)

instance [DecidableEq α] (s : Cron α) (order : List (Row α)) : Decidable (s.IsOrder order) :=
  inferInstanceAs (Decidable (_ ∧ _))

variable [DecidableEq α]

def next (limit : ℕ) (s : Cron α) : CronAction α → Option (Cron α)
  | .insert id content createdAt =>
    if (s.rows.map (·.id)).contains id then none
    else some {s with rows := s.rows++[⟨id,content,createdAt,false⟩]}
  | .tick =>
    if s.isProcessing then some s
    else some {s with
      isProcessing := true, running := s.running++[⟨s.started,.findEvents⟩],
      started := s.started+1}
  | .found number order =>
    match s.stage number with
    | some .findEvents =>
      match order with
      | none => some (s.proceed number none)
      | some order =>
        if s.IsOrder order then some (s.proceed number (nextStage (order.take limit) []))
        else none
    | _ => none
  | .published number succeeds =>
    match s.stage number with
    | some (.publishEvent event rest processedIds) =>
      if succeeds then
        some (({s with published := s.published++[⟨number,event.id⟩]} : Cron α).proceed number
          (nextStage rest (processedIds++[event.id])))
      else some (s.proceed number (nextStage rest processedIds))
    | _ => none
  | .marked number result =>
    match s.stage number with
    | some (.markEventsAsProcessed processedIds) =>
      let marked := markEventsAsProcessed processedIds s.rows
      match result with
      | .done => some ({s with rows := marked}.proceed number none)
      | .failed => some ({s with failedMarks := number::s.failedMarks}.proceed number none)
      | .failedAfterCommit =>
        some ({s with rows := marked, failedMarks := number::s.failedMarks}.proceed number none)
    | _ => none

end Cron

/-- What holds of the table and the history while one batch has `pending` ids to publish and has
published `processedIds`. Both are empty when no batch is running. -/
structure Careful (rows : List (Row α)) (published : List Success) (failedMarks : List ℕ)
    (number : ℕ) (pending processedIds : List Uuid) : Prop where
  ids : (rows.map (·.id)).Nodup
  processed : ∀ r ∈ rows, r.processed → ∃ p ∈ published, p.id = r.id
  nodup : pending.Nodup
  fresh : ∀ id ∈ pending, id ∉ processedIds ∧ ∃ r ∈ rows, r.id = id ∧ r.processed = false
  logged : ∀ id ∈ processedIds, ⟨number,id⟩ ∈ published
  stored : ∀ id ∈ processedIds, ∃ r ∈ rows, r.id = id
  /-- An event may be published again only after a failed mark. -/
  settled : ∀ p ∈ published, p.batch ∈ failedMarks ∨ (p.batch = number ∧ p.id ∈ processedIds) ∨
    ∃ r ∈ rows, r.id = p.id ∧ r.processed
  once : published.Pairwise (fun p q => p.id = q.id → p.batch ∈ failedMarks)

section Mark
variable {rows : List (Row α)} {ids : List Uuid}

@[simp] theorem map_id_markEventsAsProcessed :
    (markEventsAsProcessed ids rows).map (·.id) = rows.map (·.id) := by
  rw [markEventsAsProcessed,List.map_map]
  refine List.map_congr_left (fun r _ => ?_)
  simp only [Function.comp_apply]
  split <;> rfl

theorem mem_markEventsAsProcessed {r : Row α} : r ∈ markEventsAsProcessed ids rows ↔
    ∃ r' ∈ rows, r = if ids.contains r'.id then {r' with processed := true} else r' := by
  simp only [markEventsAsProcessed,List.mem_map,eq_comm]

/-- A row that was processed stays so, and a marked one becomes so. -/
theorem processed_markEventsAsProcessed {r : Row α} (hr : r ∈ rows)
    (h : r.processed ∨ r.id ∈ ids) :
    ∃ r' ∈ markEventsAsProcessed ids rows, r'.id = r.id ∧ r'.processed := by
  by_cases hid : r.id ∈ ids
  · exact ⟨_,mem_markEventsAsProcessed.mpr ⟨r,hr,rfl⟩,by simp [hid],by simp [hid]⟩
  · exact ⟨r,mem_markEventsAsProcessed.mpr ⟨r,hr,by simp [hid]⟩,rfl,h.resolve_right hid⟩

end Mark

namespace Careful
variable {rows : List (Row α)} {published : List Success} {failedMarks : List ℕ} {number : ℕ}
  {pending processedIds : List Uuid}

theorem initial : Careful ([] : List (Row α)) [] [] number [] [] := by
  constructor <;> simp

/-- Between two batches the number does not matter. -/
theorem renumber (h : Careful rows published failedMarks number [] []) (number' : ℕ) :
    Careful rows published failedMarks number' [] [] where
  ids := h.ids
  processed := h.processed
  nodup := h.nodup
  fresh := h.fresh
  logged := by simp
  stored := h.stored
  settled p hp := (h.settled p hp).imp_right (Or.imp_left (fun h => absurd h.2 (by simp)))
  once := h.once

theorem insert (h : Careful rows published failedMarks number pending processedIds) {row : Row α}
    (hid : row.id ∉ rows.map (·.id)) (hnew : row.processed = false) :
    Careful (rows++[row]) published failedMarks number pending processedIds where
  ids := by
    rw [List.map_append,List.map_singleton,List.nodup_append]
    refine ⟨h.ids,by simp,fun a ha b hb heq => hid ?_⟩
    rwa [← List.mem_singleton.mp hb,← heq]
  processed r hr hp := by
    rcases List.mem_append.mp hr with hr | hr
    · exact h.processed r hr hp
    · rw [List.mem_singleton.mp hr,hnew] at hp
      contradiction
  nodup := h.nodup
  fresh id hmem := by
    obtain ⟨hnot,r,hr,hrow⟩ := h.fresh id hmem
    exact ⟨hnot,r,List.mem_append_left _ hr,hrow⟩
  logged := h.logged
  stored id hmem := by
    obtain ⟨r,hr,hrow⟩ := h.stored id hmem
    exact ⟨r,List.mem_append_left _ hr,hrow⟩
  settled p hp := by
    refine (h.settled p hp).imp_right (Or.imp_right ?_)
    rintro ⟨r,hr,hrow⟩
    exact ⟨r,List.mem_append_left _ hr,hrow⟩
  once := h.once

/-- A batch starts on unprocessed rows. -/
theorem find (h : Careful rows published failedMarks number [] []) {events : List (Row α)}
    (hnodup : (events.map (·.id)).Nodup) (hrows : ∀ r ∈ events, r ∈ rows ∧ r.processed = false) :
    Careful rows published failedMarks number (events.map (·.id)) [] where
  ids := h.ids
  processed := h.processed
  nodup := hnodup
  fresh id hmem := by
    obtain ⟨r,hr,rfl⟩ := List.mem_map.mp hmem
    exact ⟨by simp,r,(hrows r hr).1,rfl,(hrows r hr).2⟩
  logged := h.logged
  stored := h.stored
  settled := h.settled
  once := h.once

/-- The event that is next was published before only in a batch whose mark failed. -/
theorem failedMark (h : Careful rows published failedMarks number pending processedIds) {id : Uuid}
    (hid : id ∈ pending) {p : Success} (hp : p ∈ published) (hpid : p.id = id) :
    p.batch ∈ failedMarks := by
  obtain ⟨hnot,r,hr,hrid,hrow⟩ := h.fresh id hid
  rcases h.settled p hp with hfailed | ⟨-,hmem⟩ | ⟨r',hr',hid',hrow'⟩
  · exact hfailed
  · rw [hpid] at hmem
    exact absurd hmem hnot
  · have hsame : r' = r := List.inj_on_of_nodup_map h.ids hr' hr (by rw [hid',hpid,hrid])
    rw [hsame,hrow] at hrow'
    contradiction

theorem publish {id : Uuid}
    (h : Careful rows published failedMarks number (id::pending) processedIds) :
    Careful rows (published++[⟨number,id⟩]) failedMarks number pending (processedIds++[id]) where
  ids := h.ids
  processed r hr hp := by
    obtain ⟨p,hmem,hid⟩ := h.processed r hr hp
    exact ⟨p,List.mem_append_left _ hmem,hid⟩
  nodup := (List.nodup_cons.mp h.nodup).2
  fresh id' hmem := by
    obtain ⟨hnot,hrow⟩ := h.fresh id' (List.mem_cons_of_mem _ hmem)
    refine ⟨?_,hrow⟩
    rw [List.mem_append,List.mem_singleton,not_or]
    exact ⟨hnot,fun heq => (List.nodup_cons.mp h.nodup).1 (heq ▸ hmem)⟩
  logged id' hmem := by
    rcases List.mem_append.mp hmem with hmem | hmem
    · exact List.mem_append_left _ (h.logged id' hmem)
    · rw [List.mem_singleton.mp hmem]
      simp
  stored id' hmem := by
    rcases List.mem_append.mp hmem with hmem | hmem
    · exact h.stored id' hmem
    · obtain ⟨-,r,hr,hid,-⟩ := h.fresh id (by simp)
      exact ⟨r,hr,hid.trans (List.mem_singleton.mp hmem).symm⟩
  settled p hp := by
    rcases List.mem_append.mp hp with hp | hp
    · exact (h.settled p hp).imp_right (Or.imp_left (And.imp_right (List.mem_append_left _)))
    · rw [List.mem_singleton.mp hp]
      exact .inr (.inl ⟨rfl,by simp⟩)
  once := by
    rw [List.pairwise_append]
    refine ⟨h.once,by simp,fun p hp q hq heq => ?_⟩
    rw [List.mem_singleton.mp hq] at heq
    exact h.failedMark (by simp) hp heq

theorem skip {id : Uuid}
    (h : Careful rows published failedMarks number (id::pending) processedIds) :
    Careful rows published failedMarks number pending processedIds :=
  ⟨h.ids,h.processed,(List.nodup_cons.mp h.nodup).2,
    fun id' hmem => h.fresh id' (List.mem_cons_of_mem _ hmem),h.logged,h.stored,h.settled,h.once⟩

theorem mark (h : Careful rows published failedMarks number [] processedIds) :
    Careful (markEventsAsProcessed processedIds rows) published failedMarks number [] [] where
  ids := by
    rw [map_id_markEventsAsProcessed]
    exact h.ids
  processed r hr hp := by
    obtain ⟨r',hr',rfl⟩ := mem_markEventsAsProcessed.mp hr
    split at hp
    · rename_i hmem
      simp only [hmem,if_true]
      exact ⟨_,h.logged r'.id (by simpa using hmem),rfl⟩
    · rename_i hmem
      simp only [hmem]
      exact h.processed r' hr' hp
  nodup := h.nodup
  fresh := by simp
  logged := by simp
  stored := by simp
  settled p hp := by
    rcases h.settled p hp with hfailed | ⟨-,hmem⟩ | ⟨r,hr,hid,hrow⟩
    · exact .inl hfailed
    · obtain ⟨r,hr,hid⟩ := h.stored p.id hmem
      rw [← hid] at hmem ⊢
      exact .inr (.inr (processed_markEventsAsProcessed hr (.inr hmem)))
    · rw [← hid]
      exact .inr (.inr (processed_markEventsAsProcessed hr (.inl hrow)))
  once := h.once

theorem failMark (h : Careful rows published failedMarks number [] processedIds) :
    Careful rows published (number::failedMarks) number [] [] where
  ids := h.ids
  processed := h.processed
  nodup := h.nodup
  fresh := by simp
  logged := by simp
  stored := by simp
  settled p hp := by
    rcases h.settled p hp with hfailed | ⟨hnumber,-⟩ | hrow
    · exact .inl (List.mem_cons_of_mem _ hfailed)
    · exact .inl (by simp [hnumber])
    · exact .inr (.inr hrow)
  once := h.once.imp (fun hpq heq => List.mem_cons_of_mem _ (hpq heq))

end Careful

namespace Stage

/-- The events that the batch has yet to publish. -/
def pending : Stage α → List Uuid
  | .publishEvent event rest _ => (event::rest).map (·.id)
  | _ => []

def processedIds : Stage α → List Uuid
  | .findEvents => []
  | .publishEvent _ _ ids => ids
  | .markEventsAsProcessed ids => ids

/-- How many answers the batch waits for at most. -/
def left (limit : ℕ) : Stage α → ℕ
  | .findEvents => limit+2
  | .publishEvent _ rest _ => rest.length+2
  | .markEventsAsProcessed _ => 1

end Stage

namespace Cron

/-- What holds in every state: one batch runs while `isProcessing` is set, and none otherwise. -/
inductive Sound (s : Cron α) : Prop
  | idle (none : s.running = []) (flag : s.isProcessing = false)
      (careful : Careful s.rows s.published s.failedMarks s.started [] [])
  | busy (number : ℕ) (stage : Stage α) (one : s.running = [⟨number,stage⟩])
      (flag : s.isProcessing = true)
      (careful : Careful s.rows s.published s.failedMarks number stage.pending stage.processedIds)

section Proceed
variable {s : Cron α} {number : ℕ} {stage : Stage α}

theorem stage_one (h : s.running = [⟨number,stage⟩]) (n : ℕ) :
    s.stage n = if number = n then some stage else none := by
  rw [Cron.stage,h]
  by_cases hn : number = n <;> simp [hn]

theorem stage_none (h : s.running = []) (n : ℕ) : s.stage n = none := by
  rw [Cron.stage,h]
  rfl

theorem nextStage_none {events : List (Row α)} {ids : List Uuid} (h : nextStage events ids = none) :
    events = [] ∧ ids = [] := by
  cases events with
  | nil => cases ids with
    | nil => exact ⟨rfl,rfl⟩
    | cons id ids => contradiction
  | cons event rest => contradiction

theorem nextStage_some {events : List (Row α)} {ids : List Uuid}
    (h : nextStage events ids = some stage) :
    stage.pending = events.map (·.id) ∧ stage.processedIds = ids := by
  cases events with
  | nil => cases ids with
    | nil => contradiction
    | cons id ids =>
      cases h
      exact ⟨rfl,rfl⟩
  | cons event rest =>
    cases h
    exact ⟨rfl,rfl⟩

/-- The batch at its end. -/
theorem Sound.finish (one : s.running = [⟨number,stage⟩])
    (careful : Careful s.rows s.published s.failedMarks number [] []) :
    (s.proceed number none).Sound :=
  .idle (by simp [proceed,one]) rfl (careful.renumber _)

/-- The batch at its next await. -/
theorem Sound.go (one : s.running = [⟨number,stage⟩]) (flag : s.isProcessing = true)
    {events : List (Row α)} {ids : List Uuid}
    (careful : Careful s.rows s.published s.failedMarks number (events.map (·.id)) ids) :
    (s.proceed number (nextStage events ids)).Sound := by
  cases hnext : nextStage events ids with
  | none =>
    obtain ⟨rfl,rfl⟩ := nextStage_none hnext
    exact .finish one careful
  | some stage' =>
    obtain ⟨hpending,hids⟩ := nextStage_some hnext
    rw [← hpending,← hids] at careful
    exact .busy number stage' (by simp [proceed,one]) flag careful

end Proceed

variable {s t : Cron α}

/-- The batch that an answer is for. -/
theorem Sound.of_stage (h : s.Sound) {n : ℕ} {st : Stage α} (hstage : s.stage n = some st) :
    s.running = [⟨n,st⟩] ∧ s.isProcessing = true ∧
      Careful s.rows s.published s.failedMarks n st.pending st.processedIds := by
  cases h with
  | idle none flag careful =>
    rw [stage_none none] at hstage
    contradiction
  | busy number stage one flag careful =>
    rw [stage_one one] at hstage
    split at hstage
    · rename_i hn
      cases hstage
      subst hn
      exact ⟨one,flag,careful⟩
    · contradiction

variable [DecidableEq α] {limit : ℕ}

theorem Sound.next (h : s.Sound) {a : CronAction α} (hn : s.next limit a = some t) : t.Sound := by
  cases a with
  | insert id content createdAt =>
    simp only [Cron.next,List.contains_iff_mem] at hn
    split at hn
    · contradiction
    · rename_i hid
      cases hn
      cases h with
      | idle none flag careful => exact .idle none flag (careful.insert hid rfl)
      | busy number stage one flag careful => exact .busy number stage one flag (careful.insert hid rfl)
  | tick =>
    simp only [Cron.next] at hn
    split at hn
    · cases hn
      exact h
    · rename_i hflag
      cases hn
      cases h with
      | idle none flag careful => exact .busy s.started .findEvents (by simp [none]) rfl careful
      | busy number stage one flag careful => exact absurd flag hflag
  | found number order =>
    simp only [Cron.next] at hn
    split at hn
    · rename_i hstage
      obtain ⟨one,flag,careful⟩ := h.of_stage hstage
      cases order with
      | none =>
        cases hn
        exact .finish one careful
      | some order =>
        simp only at hn
        split at hn
        · rename_i horder
          cases hn
          have hrows : ∀ r ∈ order.take limit, r ∈ s.rows ∧ r.processed = false := by
            intro r hr
            simpa using horder.1.mem_iff.mp (List.mem_of_mem_take hr)
          have hnodup : ((order.take limit).map (·.id)).Nodup := by
            have hall := (careful.ids.sublist (List.filter_sublist.map _)).perm
              (horder.1.map _).symm
            rw [List.map_take]
            exact hall.sublist (List.take_sublist _ _)
          exact .go one flag (careful.find hnodup hrows)
        · contradiction
    · contradiction
  | published number succeeds =>
    simp only [Cron.next] at hn
    split at hn
    · rename_i event rest ids hstage
      obtain ⟨one,flag,careful⟩ := h.of_stage hstage
      split at hn
      · cases hn
        exact Sound.go (s := {s with published := s.published++[⟨number,event.id⟩]}) one flag
          careful.publish
      · cases hn
        exact .go one flag careful.skip
    · contradiction
  | marked number result =>
    simp only [Cron.next] at hn
    split at hn
    · rename_i ids hstage
      obtain ⟨one,flag,careful⟩ := h.of_stage hstage
      cases result with
      | done =>
        cases hn
        exact .finish one careful.mark
      | failed =>
        cases hn
        exact .finish one careful.failMark
      | failedAfterCommit =>
        cases hn
        exact .finish one careful.mark.failMark
    · contradiction

theorem Sound.of_runs {as : List (CronAction α)}
    (hr : runs (Cron.next limit) .initial as = some s) : s.Sound :=
  runs_invariant' (fun _ _ _ h hn => h.next hn) (.idle rfl rfl .initial) hr

end Cron

/-- The answer that the batch waits for. -/
def CronAction.isAnswer : CronAction α → Bool
  | .insert _ _ _ => false
  | .tick => false
  | _ => true

/-- The failures that the outer `catch` takes. -/
def CronAction.aborts : CronAction α → Bool
  | .found _ none => true
  | .marked _ result => result ≠ .done
  | _ => false

namespace Cron

/-- How many answers the running batch waits for at most. -/
def left (limit : ℕ) (s : Cron α) : ℕ := (s.running.map (fun b => b.stage.left limit)).sum

section Left
variable {s t : Cron α} {number limit : ℕ} {stage : Stage α}

theorem left_one (one : s.running = [⟨number,stage⟩]) : s.left limit = stage.left limit := by
  simp [left,one]

theorem left_finish (one : s.running = [⟨number,stage⟩]) :
    (s.proceed number none).left limit = 0 := by
  simp [left,proceed,one]

theorem left_go (limit : ℕ) (one : s.running = [⟨number,stage⟩]) (events : List (Row α))
    (ids : List Uuid) :
    (s.proceed number (nextStage events ids)).left limit ≤ events.length+1 := by
  cases events with
  | nil => cases ids <;> simp [nextStage,left,proceed,one,Stage.left]
  | cons event rest => simp [nextStage,left,proceed,one,Stage.left]

theorem Sound.idle_of_left (h : s.Sound) (hleft : s.left limit = 0) : s.isProcessing = false := by
  cases h with
  | idle none flag careful => exact flag
  | busy number stage one flag careful =>
    rw [left_one one] at hleft
    cases stage <;> simp [Stage.left] at hleft

variable [DecidableEq α]

/-- Each answer brings the running batch closer to its end. -/
theorem Sound.left_next (h : s.Sound) {a : CronAction α} (hn : s.next limit a = some t)
    (hbusy : s.isProcessing = true) :
    t.left limit+(if a.isAnswer then 1 else 0) ≤ s.left limit := by
  cases a with
  | insert id content createdAt =>
    simp only [Cron.next] at hn
    split at hn
    · contradiction
    · cases hn
      exact le_rfl
  | tick =>
    rw [Cron.next,if_pos hbusy] at hn
    cases hn
    exact le_rfl
  | found number order =>
    simp only [Cron.next] at hn
    split at hn
    · rename_i hstage
      obtain ⟨one,-,-⟩ := h.of_stage hstage
      rw [left_one one]
      cases order with
      | none =>
        cases hn
        simp [left_finish one,CronAction.isAnswer,Stage.left]
      | some order =>
        simp only at hn
        split at hn
        · cases hn
          have hgo := left_go limit one (order.take limit) []
          have hlen := List.length_take_le limit order
          simp only [CronAction.isAnswer,Stage.left,if_true]
          omega
        · contradiction
    · contradiction
  | published number succeeds =>
    simp only [Cron.next] at hn
    split at hn
    · rename_i event rest ids hstage
      obtain ⟨one,-,-⟩ := h.of_stage hstage
      rw [left_one one]
      simp only [CronAction.isAnswer,Stage.left,if_true]
      split at hn
      · cases hn
        have hgo := left_go (s := {s with published := s.published++[⟨number,event.id⟩]}) limit one
          rest (ids++[event.id])
        omega
      · cases hn
        have hgo := left_go limit one rest ids
        omega
    · contradiction
  | marked number result =>
    simp only [Cron.next] at hn
    split at hn
    · rename_i ids hstage
      obtain ⟨one,-,-⟩ := h.of_stage hstage
      rw [left_one one]
      cases result <;> cases hn <;>
        simp [left,proceed,one,CronAction.isAnswer,Stage.left]
    · contradiction

/-- A batch ends before it has had more answers than it may wait for. -/
theorem Sound.ends (h : s.Sound) {as : List (CronAction α)}
    (hr : runs (Cron.next limit) s as = some t) (has : s.left limit ≤ as.countP (·.isAnswer)) :
    ∃ bs u, bs <+: as ∧ runs (Cron.next limit) s bs = some u ∧ u.isProcessing = false := by
  induction as generalizing s with
  | nil => exact ⟨[],s,by simp,rfl,h.idle_of_left (by simpa using has)⟩
  | cons a as ih =>
    cases hflag : s.isProcessing with
    | false => exact ⟨[],s,by simp,rfl,hflag⟩
    | true =>
      obtain ⟨v,hv,hrest⟩ := runs_cons.mp hr
      have hleft := h.left_next hv hflag
      rw [List.countP_cons] at has
      obtain ⟨bs,u,hbs,hu,hidle⟩ := ih (h.next hv) hrest (by omega)
      exact ⟨a::bs,u,List.cons_prefix_cons.mpr ⟨rfl,hbs⟩,runs_cons.mpr ⟨v,hv,hu⟩,hidle⟩

end Left

variable [DecidableEq α] {limit : ℕ} {s t : Cron α}

theorem not_isProcessing_of_aborts {a : CronAction α} (ha : a.aborts)
    (hn : s.next limit a = some t) : t.isProcessing = false := by
  cases a with
  | insert id content createdAt => contradiction
  | tick => contradiction
  | published number succeeds => contradiction
  | found number order =>
    simp only [Cron.next] at hn
    split at hn
    · cases order with
      | none =>
        cases hn
        rfl
      | some order => contradiction
    · contradiction
  | marked number result =>
    simp only [Cron.next] at hn
    split at hn
    · cases result <;> cases hn <;> rfl
    · contradiction

theorem Sound.tick (h : s.Sound) (hidle : s.isProcessing = false) :
    ∃ t, s.next limit .tick = some t ∧ t.running = [⟨s.started,.findEvents⟩] := by
  cases h with
  | idle none flag careful => exact ⟨_,by rw [Cron.next,if_neg (by simp [flag])],by simp [none]⟩
  | busy number stage one flag careful =>
    rw [flag] at hidle
    contradiction

/-- What the worker keeps to in a state. -/
structure Orderly (limit : ℕ) (s : Cron α) : Prop where
  /-- A processed row was published. -/
  published : ∀ r ∈ s.rows, r.processed → ∃ p ∈ s.published, p.id = r.id
  /-- At most one batch runs, and the flag tells whether. -/
  single : s.running.length ≤ 1 ∧ (s.isProcessing ↔ s.running ≠ [])
  /-- The next tick starts a batch once the flag is down. -/
  starts : s.isProcessing = false →
    ∃ t, s.next limit .tick = some t ∧ t.running = [⟨s.started,.findEvents⟩]
  /-- A failure of `findEvents` or of `markEventsAsProcessed` takes the flag down. -/
  aborts : ∀ a t, a.aborts → s.next limit a = some t → t.isProcessing = false
  /-- Whatever the events do, the flag is down after the last answer that the batch waits for. -/
  ends : ∀ as t, runs (Cron.next limit) s as = some t → s.left limit ≤ as.countP (·.isAnswer) →
    ∃ bs u, bs <+: as ∧ runs (Cron.next limit) s bs = some u ∧ u.isProcessing = false
  /-- An event is published again only after the mark of its batch has failed. -/
  once : s.published.Pairwise (fun p q => p.id = q.id → p.batch ∈ s.failedMarks)

theorem Sound.orderly (h : s.Sound) : s.Orderly limit where
  published := by cases h <;> exact Careful.processed ‹_›
  single := by
    cases h with
    | idle none flag careful => simp [none,flag]
    | busy number stage one flag careful => simp [one,flag]
  starts := h.tick
  aborts _ _ := not_isProcessing_of_aborts
  ends _ _ := h.ends
  once := by cases h <;> exact Careful.once ‹_›

end Cron

section Work

/-- The events that the call has in hand. -/
def Stage.tick : Stage α → Option (Tick (Row α))
  | .findEvents => none
  | .publishEvent event rest processedIds => some ⟨event::rest,processedIds⟩
  | .markEventsAsProcessed processedIds => some ⟨[],processedIds⟩

/-- The table as the worker without a flag sees it. -/
def table : Table (List (Row α)) (Row α) where
  id := Row.id
  unprocessed rows := rows.filter (fun r => !r.processed)
  markEventsAsProcessed := markEventsAsProcessed
  message _ _ := none

/-- The calls of `processOutbox` as one worker. -/
def Cron.work (s : Cron α) : Option (Tick (Row α)) × List (Row α) :=
  ((s.running.head?.map (·.stage)).bind Stage.tick,s.rows)

theorem Cron.work_one {s : Cron α} {number : ℕ} {stage : Stage α}
    (one : s.running = [⟨number,stage⟩]) : s.work = (stage.tick,s.rows) := by
  simp [work,one]

theorem Cron.work_finish {s : Cron α} {number : ℕ} {stage : Stage α}
    (one : s.running = [⟨number,stage⟩]) : (s.proceed number none).work = (none,s.rows) := by
  simp [work,proceed,one]

variable [DecidableEq α]

/-- Steps of the worker without a flag. -/
def works : Option (Tick (Row α)) × List (Row α) → List (WorkerAction (Row α)) →
    Option (Option (Tick (Row α)) × List (Row α)) :=
  runs (fun w a => (table.work w.1 w.2 a).map (fun r => (r.tick,r.db)))

theorem work_find {rows events : List (Row α)} (h : ∀ e ∈ events, e ∈ table.unprocessed rows) :
    (table.work none rows (.find events)).map (fun r => (r.tick,r.db)) =
      some (if events = [] then none else some ⟨events,[]⟩,rows) := by
  simp only [Table.work]
  rw [if_pos h]
  rfl

theorem work_mark (rows : List (Row α)) (ids : List Uuid) (fails : Bool) :
    (table.work (some ⟨[],ids⟩) rows (.mark fails)).map (fun r => (r.tick,r.db)) =
      some (none,if fails then rows else markEventsAsProcessed ids rows) := by
  cases ids with
  | nil => simp [Table.work,markEventsAsProcessed]
  | cons id ids => cases fails <;> rfl

/-- The call that has published its last event either marks what it has published, or has nothing
to mark and is at its end. -/
theorem Cron.work_go {s : Cron α} {number : ℕ} {stage : Stage α}
    (one : s.running = [⟨number,stage⟩]) (events : List (Row α)) (ids : List Uuid) :
    ∃ steps, works (some ⟨events,ids⟩,s.rows) steps =
      some (s.proceed number (nextStage events ids)).work := by
  cases events with
  | nil =>
    cases ids with
    | nil =>
      refine ⟨[.mark false],?_⟩
      rw [nextStage,work_finish one]
      rfl
    | cons id ids => exact ⟨[],by simp [works,work,nextStage,proceed,one,Stage.tick]⟩
  | cons event rest => exact ⟨[],by simp [works,work,nextStage,proceed,one,Stage.tick]⟩

/-- Whatever happens under the flag is what the worker does one tick after another, and inserts. -/
theorem Cron.Sound.works {limit : ℕ} {s t : Cron α} (h : s.Sound) {a : CronAction α}
    (hn : s.next limit a = some t) :
    (∃ row : Row α, row.processed = false ∧ t.work = (s.work.1,s.rows++[row])) ∨
      ∃ steps, Outbox.works s.work steps = some t.work := by
  cases a with
  | insert id content createdAt =>
    simp only [Cron.next] at hn
    split at hn
    · contradiction
    · cases hn
      exact .inl ⟨_,rfl,rfl⟩
  | tick =>
    simp only [Cron.next] at hn
    split at hn
    · cases hn
      exact .inr ⟨[],rfl⟩
    · rename_i hflag
      cases hn
      cases h with
      | idle none flag careful => exact .inr ⟨[],by simp [Outbox.works,Cron.work,none,Stage.tick]⟩
      | busy number stage one flag careful => exact absurd flag hflag
  | found number order =>
    simp only [Cron.next] at hn
    split at hn
    · rename_i hstage
      obtain ⟨one,-,-⟩ := h.of_stage hstage
      rw [Cron.work_one one]
      cases order with
      | none =>
        cases hn
        exact .inr ⟨[],by rw [Cron.work_finish one]; rfl⟩
      | some order =>
        simp only at hn
        split at hn
        · rename_i horder
          cases hn
          have hrows : ∀ e ∈ order.take limit, e ∈ table.unprocessed s.rows :=
            fun e he => horder.1.mem_iff.mp (List.mem_of_mem_take he)
          refine .inr ⟨[.find (order.take limit)],runs_cons.mpr ⟨_,work_find hrows,?_⟩⟩
          cases order.take limit with
          | nil =>
            rw [nextStage,Cron.work_finish one]
            rfl
          | cons event rest => simp [nextStage,Cron.work,Cron.proceed,one,Stage.tick]
        · contradiction
    · contradiction
  | published number succeeds =>
    simp only [Cron.next] at hn
    split at hn
    · rename_i event rest ids hstage
      obtain ⟨one,-,-⟩ := h.of_stage hstage
      rw [Cron.work_one one]
      split at hn
      · cases hn
        obtain ⟨steps,hsteps⟩ := Cron.work_go
          (s := {s with published := s.published++[⟨number,event.id⟩]}) one rest (ids++[event.id])
        exact .inr ⟨.publish (.acknowledged 0)::steps,runs_cons.mpr ⟨_,rfl,hsteps⟩⟩
      · cases hn
        obtain ⟨steps,hsteps⟩ := Cron.work_go one rest ids
        exact .inr ⟨.publish .failed::steps,runs_cons.mpr ⟨_,rfl,hsteps⟩⟩
    · contradiction
  | marked number result =>
    simp only [Cron.next] at hn
    split at hn
    · rename_i ids hstage
      obtain ⟨one,-,-⟩ := h.of_stage hstage
      rw [Cron.work_one one]
      refine .inr ⟨[.mark (result = .failed)],runs_cons.mpr ⟨_,work_mark ..,?_⟩⟩
      cases result <;> cases hn <;> simp [Cron.work,Cron.proceed,one]
    · contradiction

end Work

/-- The worker keeps to this in every state that it reaches. -/
theorem outbox_worker_is_orderly [DecidableEq α] {limit : ℕ} {as : List (CronAction α)} {s : Cron α}
    (hr : runs (Cron.next limit) .initial as = some s) : s.Orderly limit :=
  (Cron.Sound.of_runs hr).orderly

section Republished

/-- One row is published, its mark fails, and the next tick publishes it again. -/
def republished : List (CronAction Unit) :=
  [.insert 7 () 1,.tick,.tick,.found 0 (some [⟨7,(),1,false⟩]),.insert 8 () 2,.published 0 true,
    .marked 0 .failed,.tick,.found 1 (some [⟨7,(),1,false⟩,⟨8,(),2,false⟩]),.published 1 true,
    .marked 1 .done]

def republishedState : Cron Unit :=
  ⟨[⟨7,(),1,true⟩,⟨8,(),2,false⟩],false,[],2,[⟨0,7⟩,⟨1,7⟩],[0]⟩

theorem outbox_worker_is_orderly_republished : republishedState.Orderly 1 :=
  have hr : runs (Cron.next 1) .initial republished = some republishedState := by decide +kernel
  outbox_worker_is_orderly hr

end Republished
end NestHomework.Outbox
