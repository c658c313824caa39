import Mathlib.Tactic
import NestHomework.Postgres.Handlers

/-! Commit-order serializability. Sessions hold the rows they read and write until they commit, and
a body that relied on the absence of an index entry has inserted that entry itself before it
commits. Then the committed database is always the one that the committed bodies produce one after
another, in the order of their commits. -/
namespace NestHomework.Postgres
namespace Server

variable {Stmt : Type} {Res : Stmt → Type} {DB Write Row Key ρ ω T : Type}

/-- How statements depend on rows and index entries. `Similar R A` compares two databases as a
session sees them that holds the rows `R` and has asked for the entries `A`. -/
structure Lawful (S : Server Stmt Res DB Write Row Key) where
  hasKey : DB → Key → Prop
  absent : (s : Stmt) → Res s → List Key
  touches : Write → List Row
  newKeys : Write → List Key
  Similar : (Row → Prop) → (Key → Prop) → DB → DB → Prop
  refl : ∀ R A db, Similar R A db db
  right : ∀ {R A db db'} w, Similar R A db db' → (∀ r ∈ touches w, ¬R r) →
    (∀ k ∈ newKeys w, ¬A k) → Similar R A db (S.apply db' w)
  both : ∀ {R A db db'} w, Similar R A db db' → (∀ k ∈ newKeys w, A k) →
    Similar R A (S.apply db w) (S.apply db' w)
  exec_similar : ∀ {R A db db' s r ws}, Similar R A db db' → (∀ q ∈ S.reads s db, R q) →
    (∀ k ∈ absent s r, A k) → S.exec s db = .ok (r,ws) → S.exec s db' = .ok (r,ws)
  reads_similar : ∀ {R A db db'} s, Similar R A db db' → S.reads s db' = S.reads s db
  exec_touches : ∀ {s db r ws}, S.exec s db = .ok (r,ws) →
    ∀ w ∈ ws, ∀ q ∈ touches w, q ∈ S.reads s db
  exec_newKeys : ∀ {s db r ws}, S.exec s db = .ok (r,ws) → ws.flatMap newKeys = S.inserts s
  exec_absent : ∀ {s db r ws}, S.exec s db = .ok (r,ws) → ∀ k ∈ absent s r, ¬hasKey db k
  inserts_absent : ∀ {s db r ws}, S.exec s db = .ok (r,ws) → ∀ k ∈ S.inserts s, k ∈ absent s r
  hasKey_apply : ∀ db w k, hasKey (S.apply db w) k ↔ hasKey db k ∨ k ∈ newKeys w

namespace Lawful
variable {S : Server Stmt Res DB Write Row Key} (L : Lawful S)

theorem hasKey_applyAll (db : DB) (ws : List Write) (k : Key) :
    L.hasKey (S.applyAll db ws) k ↔ L.hasKey db k ∨ k ∈ ws.flatMap L.newKeys := by
  induction ws generalizing db with
  | nil => simp
  | cons w ws ih => simp [ih,L.hasKey_apply,or_assoc]

theorem right_all {R : Row → Prop} {A : Key → Prop} {db db' : DB} (ws : List Write)
    (h : L.Similar R A db db') (hr : ∀ w ∈ ws, ∀ r ∈ L.touches w, ¬R r)
    (hk : ∀ k ∈ ws.flatMap L.newKeys, ¬A k) : L.Similar R A db (S.applyAll db' ws) := by
  induction ws generalizing db' with
  | nil => exact h
  | cons w ws ih =>
    simp only [List.flatMap_cons,List.mem_append] at hk
    exact ih (L.right w h (hr w (by simp)) (fun k hw => hk k (.inl hw)))
      (fun v hv => hr v (by simp [hv])) (fun k hw => hk k (.inr hw))

theorem both_all {R : Row → Prop} {A : Key → Prop} {db db' : DB} (ws : List Write)
    (h : L.Similar R A db db') (hk : ∀ k ∈ ws.flatMap L.newKeys, A k) :
    L.Similar R A (S.applyAll db ws) (S.applyAll db' ws) := by
  induction ws generalizing db db' with
  | nil => exact h
  | cons w ws ih =>
    simp only [List.flatMap_cons,List.mem_append] at hk
    exact ih (L.both w h (fun k hw => hk k (.inl hw))) (fun k hw => hk k (.inr hw))

/-- Running the body on `db` alone, with rows in `R` and entries in `A`, leads to this point. -/
inductive Reaches (R : Row → Prop) (A : Key → Prop) (db : DB) (p : Tx Stmt Res ρ) :
    List Write → Tx Stmt Res ρ → Prop
  | refl : Reaches R A db p [] p
  | step {ws s k r vs} (before : Reaches R A db p ws (.exec s k))
      (rows : ∀ q ∈ S.reads s (S.applyAll db ws), R q) (keys : ∀ k ∈ L.absent s r, A k)
      (answer : S.exec s (S.applyAll db ws) = .ok (r,vs)) : Reaches R A db p (ws++vs) (k r)

variable {L} {R R' : Row → Prop} {A A' : Key → Prop} {db db' : DB} {p c : Tx Stmt Res ρ}
  {ws : List Write}

theorem Reaches.mono (h : L.Reaches R A db p ws c) (hR : ∀ r, R r → R' r)
    (hA : ∀ k, A k → A' k) : L.Reaches R' A' db p ws c := by
  induction h with
  | refl => exact .refl
  | step _ rows keys answer ih =>
    exact .step ih (fun q hq => hR q (rows q hq)) (fun k hk => hA k (keys k hk)) answer

theorem Reaches.newKeys (h : L.Reaches R A db p ws c) : ∀ k ∈ ws.flatMap L.newKeys, A k := by
  induction h with
  | refl => simp
  | step _ _ keys answer ih =>
    intro k hk
    simp only [List.flatMap_append,List.mem_append,L.exec_newKeys answer] at hk
    rcases hk with hk | hk
    · exact ih k hk
    · exact keys k (L.inserts_absent answer k hk)

/-- Frame rule: a database that looks the same gives the same run. -/
theorem Reaches.frame (h : L.Reaches R A db p ws c) (hs : L.Similar R A db db') :
    L.Reaches R A db' p ws c := by
  induction h with
  | refl => exact .refl
  | @step ws s k r vs before rows keys answer ih =>
    have hv := L.both_all ws hs before.newKeys
    refine .step ih ?_ keys (L.exec_similar hv rows keys answer)
    rw [L.reads_similar s hv]
    exact rows

theorem Reaches.run (h : L.Reaches R A db p ws c) :
    S.run none p db = (S.run none c (S.applyAll db ws)).map (fun y => (y.1,ws++y.2)) := by
  induction h with
  | refl =>
    rw [Engine.applyAll_nil]
    rcases S.run none p db with e | ⟨a,vs⟩ <;> simp [Except.map]
  | @step ws s k r vs _ _ _ answer ih =>
    rw [ih,Engine.run_exec,answer,Engine.applyAll_append]
    simp only [Except.bind]
    rcases S.run none (k r) (S.applyAll (S.applyAll db ws) vs) with e | ⟨a,us⟩ <;>
      simp [Except.map]

theorem Reaches.run_pure {a : ρ} (h : L.Reaches R A db p ws (.pure a)) :
    S.run none p db = .ok (a,ws) := by
  rw [h.run]
  simp [Except.map]

/-- A body adds no other entries than its statements insert. -/
theorem run_newKeys (L : Lawful S) {P : Key → Prop} {p : Tx Stmt Res ρ}
    (hp : p.Every (fun s => ∀ k ∈ S.inserts s, P k)) {db : DB} {x : ρ × List Write}
    (h : S.run none p db = .ok x) : ∀ k ∈ x.2.flatMap L.newKeys, P k := by
  induction p generalizing db x with
  | pure a =>
    rw [Engine.run_pure] at h
    cases h
    simp
  | throw e =>
    rw [Engine.run_throw] at h
    contradiction
  | exec s k ih =>
    cases he : S.exec s db with
    | error e =>
      rw [Engine.run_exec_error he] at h
      contradiction
    | ok y =>
      obtain ⟨r,ws⟩ := y
      rw [Engine.run_exec_ok he] at h
      cases hrest : S.run none (k r) (S.applyAll db ws) with
      | error e => simp [hrest,Except.map] at h
      | ok z =>
        simp only [hrest,Except.map,Except.ok.injEq] at h
        subst h
        intro q hq
        rw [List.flatMap_append,List.mem_append,L.exec_newKeys he] at hq
        rcases hq with hq | hq
        · exact hp.1 q hq
        · exact ih r (hp.2 r) hrest q hq

/-- On every path, an entry that was reported missing is inserted before the body returns. `A` are
the entries reported missing and not inserted yet. -/
def Guarded (L : Lawful S) : Tx Stmt Res ρ → (Key → Prop) → Prop
  | .pure _, A => ∀ k, ¬A k
  | .throw _, _ => True
  | .exec s k, A => ∀ r, L.Guarded (k r) (fun q => (A q ∨ q ∈ L.absent s r) ∧ q ∉ S.inserts s)

/-- Every transaction of the handler is guarded. -/
def GuardedProc (L : Lawful S) : Proc Stmt Res ρ ω → Prop
  | .done _ => True
  | .transaction body next => L.Guarded body (fun _ => False) ∧ ∀ r, L.GuardedProc (next r)

theorem Guarded.single {body : Tx Stmt Res ρ} (h : L.Guarded body (fun _ => False)) :
    L.GuardedProc (.transaction body .done : Proc Stmt Res ρ (Except String ρ)) :=
  ⟨h,fun _ => trivial⟩

/-- The entries that the answers so far reported missing. -/
def seen (L : Lawful S) (a : Active Res Write Row ρ ω) : List Key :=
  a.answered.flatMap (fun x => L.absent x.1 x.2)

end Lawful

variable (S : Server Stmt Res DB Write Row Key)

/-- The committed bodies run one after another, each on what the ones before it left. -/
inductive Serial (db₀ : DB) : List (Commit Res Write ρ T) → DB → Prop
  | nil : Serial db₀ [] db₀
  | snoc {log db c} (before : Serial db₀ log db)
      (alone : S.run none c.body db = .ok (c.value,c.writes)) :
      Serial db₀ (log++[c]) (S.applyAll db c.writes)

variable {S} [DecidableEq T] [DecidableEq Row] [DecidableEq Key]

/-- What holds of a transaction in progress: as long as the entries it saw missing stay missing,
running it alone on the committed state leads to where it is. -/
structure Progress (L : Lawful S) (s : State Res DB Write Row Key ρ ω T) (t : T)
    (a : Active Res Write Row ρ ω) : Prop where
  next : ∀ r, L.GuardedProc (a.next r)
  reaches : (∀ k ∈ L.seen a, ¬L.hasKey s.db k) →
    L.Reaches (fun r => s.owns t r) (· ∈ L.seen a) s.db a.body a.pending a.cur
  guarded : ∃ A, L.Guarded a.cur A ∧ ∀ k ∈ L.seen a, A k ∨ (t,k) ∈ s.entries
  touches : ∀ w ∈ a.pending, ∀ r ∈ L.touches w, s.owns t r
  newKeys : ∀ k ∈ a.pending.flatMap L.newKeys, (t,k) ∈ s.entries

/-- The two-phase-locking invariant. -/
structure TwoPhase (L : Lawful S) (db₀ : DB) (s : State Res DB Write Row Key ρ ω T) : Prop where
  serial : Serial S db₀ s.log s.db
  exclusive : s.Exclusive
  entries_one : ∀ t u k, (t,k) ∈ s.entries → (u,k) ∈ s.entries → t = u
  entries_new : ∀ t k, (t,k) ∈ s.entries → ¬L.hasKey s.db k
  idle : ∀ t p, s.session t = .idle p → L.GuardedProc p
  active : ∀ t a, s.session t = .active a → Progress L s t a

section Steps
variable {L : Lawful S} {db₀ : DB} {s s' : State Res DB Write Row Key ρ ω T} {t : T}
  {a : Active Res Write Row ρ ω}

omit [DecidableEq Key] in
/-- Progress survives whatever keeps the committed state and the session's own locks. -/
theorem Progress.mono (h : Progress L s t a) (hdb : s'.db = s.db)
    (ho : ∀ r, s.owns t r → s'.owns t r) (he : ∀ k, (t,k) ∈ s.entries → (t,k) ∈ s'.entries) :
    Progress L s' t a where
  next := h.next
  reaches hk := by
    rw [hdb] at hk ⊢
    exact (h.reaches hk).mono ho (fun _ hA => hA)
  guarded := by
    obtain ⟨A,hA,hs⟩ := h.guarded
    exact ⟨A,hA,fun k hk => (hs k hk).imp_right (he k)⟩
  touches w hw r hr := ho r (h.touches w hw r hr)
  newKeys k hk := he k (h.newKeys k hk)

omit [DecidableEq Key] in
/-- Progress survives the commit of writes to rows that the session does not hold. -/
theorem Progress.frame (h : Progress L s t a) {ws : List Write}
    (hdb : s'.db = S.applyAll s.db ws) (hw : ∀ w ∈ ws, ∀ r ∈ L.touches w, ¬s.owns t r)
    (ho : ∀ r, s.owns t r → s'.owns t r) (he : ∀ k, (t,k) ∈ s.entries → (t,k) ∈ s'.entries) :
    Progress L s' t a where
  next := h.next
  reaches hk := by
    rw [hdb] at hk ⊢
    simp only [L.hasKey_applyAll,not_or] at hk
    have hold := h.reaches (fun k hks => (hk k hks).1)
    have hsim := L.right_all ws (L.refl (fun r => s.owns t r) (· ∈ L.seen a) s.db) hw
      (fun k hkw hks => (hk k hks).2 hkw)
    exact (hold.frame hsim).mono ho (fun _ hA => hA)
  guarded := by
    obtain ⟨A,hA,hs⟩ := h.guarded
    exact ⟨A,hA,fun k hk => (hs k hk).imp_right (he k)⟩
  touches w hw r hr := ho r (h.touches w hw r hr)
  newKeys k hk := he k (h.newKeys k hk)

omit [DecidableEq Key] in
theorem TwoPhase.setActive (h : TwoPhase L db₀ s) (ha : Progress L s t a) :
    TwoPhase L db₀ (s.setActive t a) where
  serial := h.serial
  exclusive := h.exclusive
  entries_one := h.entries_one
  entries_new := h.entries_new
  idle u p hu := by
    rw [State.setActive_session] at hu
    split at hu
    · contradiction
    · exact h.idle u p hu
  active u b hu := by
    rw [State.setActive_session] at hu
    split at hu
    · rename_i heq
      subst heq
      cases hu
      exact ha.mono rfl (fun _ h => h) (fun _ h => h)
    · exact (h.active u b hu).mono rfl (fun _ h => h) (fun _ h => h)

omit [DecidableEq Key] in
theorem TwoPhase.takeLock (h : TwoPhase L db₀ s) {r : Row} {m : RowLock} (hf : s.free t r m) :
    TwoPhase L db₀ (s.takeLock t r m) where
  serial := h.serial
  exclusive := h.exclusive.takeLock hf
  entries_one := h.entries_one
  entries_new := h.entries_new
  idle := h.idle
  active u b hu := by
    refine (h.active u b hu).mono rfl (fun q hq => ?_) (fun _ h => h)
    obtain ⟨n,hn,hx⟩ := State.owns_iff.mp hq
    exact State.owns_iff.mpr ⟨n,by simp [hn],hx⟩

theorem TwoPhase.claim (h : TwoPhase L db₀ s) {ks : List Key} (hf : ∀ k ∈ ks, s.unclaimed t k)
    (hn : ∀ k ∈ ks, ¬L.hasKey s.db k) : TwoPhase L db₀ (s.claim t ks) where
  serial := h.serial
  exclusive := h.exclusive
  entries_one u v k hu hv := by
    simp only [State.claim_entries,List.mem_append,List.mem_map,Prod.mk.injEq] at hu hv
    rcases hu with hu | ⟨k',hk,rfl,rfl⟩ <;> rcases hv with hv | ⟨k'',hk',rfl,rfl⟩
    · exact h.entries_one u v k hu hv
    · exact State.unclaimed_iff.mp (hf k'' hk') u hu
    · exact (State.unclaimed_iff.mp (hf k' hk) v hv).symm
    · rfl
  entries_new u k hu := by
    simp only [State.claim_entries,List.mem_append,List.mem_map,Prod.mk.injEq] at hu
    rcases hu with hu | ⟨k',hk,rfl,rfl⟩
    · exact h.entries_new u k hu
    · exact hn k' hk
  idle := h.idle
  active u b hu := (h.active u b hu).mono rfl (fun _ h => h) (fun k hk => by simp [hk])

omit [DecidableEq Key] in
theorem TwoPhase.finish (h : TwoPhase L db₀ s) {rest : Proc Stmt Res ρ ω}
    (hr : L.GuardedProc rest) : TwoPhase L db₀ (s.finish t rest) where
  serial := h.serial
  exclusive := State.Exclusive.finish h.exclusive t _
  entries_one u v k hu hv :=
    h.entries_one u v k (List.mem_of_mem_filter hu) (List.mem_of_mem_filter hv)
  entries_new u k hu := h.entries_new u k (List.mem_of_mem_filter hu)
  idle u p hu := by
    rw [State.finish_session] at hu
    split at hu
    · cases hu; exact hr
    · exact h.idle u p hu
  active u b hu := by
    rw [State.finish_session] at hu
    split at hu
    · contradiction
    · rename_i hne
      exact (h.active u b hu).mono rfl (fun q hq => by rwa [State.owns_finish hne])
        (fun k hk => by simp [hk,hne])

omit [DecidableEq Key] in
/-- A guarded body that is about to return has inserted every entry it saw missing. -/
theorem Progress.seen_missing (h : TwoPhase L db₀ s) (ha : Progress L s t a) {x : ρ}
    (hc : a.cur = .pure x) : ∀ k ∈ L.seen a, (t,k) ∈ s.entries ∧ ¬L.hasKey s.db k := by
  intro k hk
  obtain ⟨A,hA,hs⟩ := ha.guarded
  rw [hc] at hA
  have he := (hs k hk).resolve_left (hA k)
  exact ⟨he,h.entries_new t k he⟩

omit [DecidableEq Key] in
theorem TwoPhase.commit (h : TwoPhase L db₀ s) (ha : s.session t = .active a) {x : ρ}
    (hc : a.cur = .pure x) :
    TwoPhase L db₀ ((s.record (S.view s.db a) ⟨t,a.body,x,a.pending⟩).finish t
      (a.next (.ok x))) where
  serial := by
    have hp := h.active t a ha
    have hr := hp.reaches (fun k hk => (hp.seen_missing h hc k hk).2)
    rw [hc] at hr
    exact .snoc h.serial hr.run_pure
  exclusive := State.Exclusive.finish h.exclusive t (a.next (.ok x))
  entries_one u v k hu hv :=
    h.entries_one u v k (List.mem_of_mem_filter hu) (List.mem_of_mem_filter hv)
  entries_new u k hu := by
    simp only [State.finish_entries,State.record_entries,List.mem_filter,decide_eq_true_eq] at hu
    simp only [State.finish_db,State.record_db,view,L.hasKey_applyAll,not_or]
    refine ⟨h.entries_new u k hu.1,fun hk => hu.2 ?_⟩
    exact h.entries_one u t k hu.1 ((h.active t a ha).newKeys k hk)
  idle u p hu := by
    rw [State.finish_session] at hu
    split at hu
    · cases hu; exact (h.active t a ha).next _
    · exact h.idle u p hu
  active u b hu := by
    rw [State.finish_session] at hu
    split at hu
    · contradiction
    · rename_i hne
      refine (h.active u b hu).frame rfl (fun w hw r hr ho => ?_)
        (fun q hq => by rwa [State.owns_finish hne]) (fun k hk => by simp [hk,hne])
      -- two sessions cannot both hold the row for writing
      obtain ⟨m,hm,hx⟩ := State.owns_iff.mp ((h.active t a ha).touches w hw r hr)
      obtain ⟨n,hn,hy⟩ := State.owns_iff.mp ho
      have hcf := h.exclusive u t r n m hn hm hne
      rw [RowLock.conflicts_of_exclusive hy hx] at hcf
      contradiction

omit [DecidableEq Key] in
/-- As long as the entries that a session saw missing are missing, its body does alone what it has
done so far. -/
theorem Progress.run_alone (ha : Progress L s t a)
    (hseen : ∀ k ∈ L.seen a, ¬L.hasKey s.db k) :
    S.run none a.body s.db =
      (S.run none a.cur (S.view s.db a)).map (fun y => (y.1,a.pending++y.2)) :=
  (ha.reaches hseen).run

omit [DecidableEq Key] in
theorem Progress.not_throw (ha : Progress L s t a) (hseen : ∀ k ∈ L.seen a, ¬L.hasKey s.db k)
    {x : ρ × List Write} (hok : S.run none a.body s.db = .ok x) {e : String} :
    a.cur ≠ .throw e := by
  intro hc
  rw [ha.run_alone hseen,hc,Engine.run_throw] at hok
  contradiction

omit [DecidableEq Key] in
theorem Progress.not_error (ha : Progress L s t a) (hseen : ∀ k ∈ L.seen a, ¬L.hasKey s.db k)
    {x : ρ × List Write} (hok : S.run none a.body s.db = .ok x) {st : Stmt}
    {k : Res st → Tx Stmt Res ρ} (hc : a.cur = .exec st k) {e : String} :
    S.exec st (S.view s.db a) ≠ .error e := by
  intro he
  rw [ha.run_alone hseen,hc,Engine.run_exec_error he] at hok
  contradiction

omit [DecidableEq Key] in
/-- A body that is about to return has done what it does alone. -/
theorem Progress.run_pure (h : TwoPhase L db₀ s) (ha : Progress L s t a) {x : ρ}
    (hc : a.cur = .pure x) : S.run none a.body s.db = .ok (x,a.pending) := by
  rw [ha.run_alone (fun k hk => (ha.seen_missing h hc k hk).2),hc,Engine.run_pure]
  simp [Except.map]

/-- The statement that a session executes extends its run alone. -/
theorem Progress.exec (h : TwoPhase L db₀ s) (ha : s.session t = .active a) {st : Stmt}
    {k : Res st → Tx Stmt Res ρ} (hc : a.cur = .exec st k)
    (hrows : ∀ r ∈ S.reads st (S.view s.db a), s.owns t r) {r : Res st} {ws : List Write}
    (he : S.exec st (S.view s.db a) = .ok (r,ws)) :
    Progress L (s.claim t (S.inserts st)) t
      {a with
        cur := k r
        pending := a.pending++ws
        plan := none
        answered := a.answered++[⟨st,r⟩]} := by
  have hp := h.active t a ha
  have hseen : ∀ q, q ∈ L.seen a ∨ q ∈ L.absent st r ↔ q ∈ L.seen
      {a with
        cur := k r
        pending := a.pending++ws
        plan := none
        answered := a.answered++[⟨st,r⟩]} := by
    intro q
    simp [Lawful.seen]
  refine ⟨hp.next,?_,?_,?_,?_⟩
  · intro hk
    have hr := hp.reaches (fun q hq => hk q ((hseen q).mp (.inl hq)))
    rw [hc] at hr
    exact .step (hr.mono (fun _ h => h) (fun q hq => (hseen q).mp (.inl hq))) hrows
      (fun q hq => (hseen q).mp (.inr hq)) he
  · obtain ⟨A,hA,hs⟩ := hp.guarded
    rw [hc] at hA
    refine ⟨_,hA r,fun q hq => ?_⟩
    by_cases hi : q ∈ S.inserts st
    · exact .inr (by simp [hi])
    · rcases (hseen q).mpr hq with hq | hq
      · exact (hs q hq).imp (fun h => ⟨.inl h,hi⟩) (fun h => by simp [h])
      · exact .inl ⟨.inr hq,hi⟩
  · intro w hw q hq
    rcases List.mem_append.mp hw with hw | hw
    · exact hp.touches w hw q hq
    · exact hrows q (L.exec_touches he w hw q hq)
  · intro q hq
    simp only [List.flatMap_append,List.mem_append,L.exec_newKeys he] at hq
    rcases hq with hq | hq
    · simp [hp.newKeys q hq]
    · simp [hq]

/-- One step of the server keeps the two-phase-locking invariant. -/
theorem TwoPhase.next (h : TwoPhase L db₀ s) {act : SessionAction Row T}
    (hs : S.next s act = some s') : TwoPhase L db₀ s' := by
  cases act with
  | «begin» t =>
    obtain ⟨body,next,hi,rfl⟩ := next_begin hs
    obtain ⟨hb,hn⟩ := h.idle t _ hi
    exact h.setActive ⟨hn,fun _ => .refl,⟨_,hb,by simp [Lawful.seen]⟩,by simp,by simp⟩
  | start t plan =>
    obtain ⟨a,st,k,ha,-,-,-,rfl⟩ := next_start hs
    have hp := h.active t a ha
    exact h.setActive ⟨hp.next,hp.reaches,hp.guarded,hp.touches,hp.newKeys⟩
  | lock t =>
    obtain ⟨a,r,m,plan,ha,-,hf,rfl⟩ := next_lock hs
    have h' := h.takeLock hf
    have hp := h'.active t a ha
    exact h'.setActive ⟨hp.next,hp.reaches,hp.guarded,hp.touches,hp.newKeys⟩
  | exec t =>
    obtain ⟨a,st,k,ha,hc,-,hrows,hkeys,⟨r,ws,he,rfl⟩ | ⟨e,-,rfl⟩⟩ := next_exec hs
    · have hnew : ∀ q ∈ S.inserts st, ¬L.hasKey s.db q := by
        intro q hq hk
        refine L.exec_absent he q (L.inserts_absent he q hq) ?_
        rw [view,L.hasKey_applyAll]
        exact .inl hk
      exact (h.claim hkeys hnew).setActive (Progress.exec h ha hc hrows he)
    · exact h.finish ((h.active t a ha).next _)
  | commit t =>
    obtain ⟨a,x,ha,hc,rfl⟩ := next_commit hs
    exact h.commit ha hc
  | rollback t =>
    obtain ⟨a,e,ha,-,rfl⟩ := next_rollback hs
    exact h.finish ((h.active t a ha).next _)
  | abort t =>
    obtain ⟨a,ha,rfl⟩ := next_abort hs
    exact h.finish ((h.active t a ha).next _)

omit [DecidableEq Key] in
theorem TwoPhase.initial {handler : T → Proc Stmt Res ρ ω} (hg : ∀ t, L.GuardedProc (handler t)) :
    TwoPhase L db₀ (initial db₀ handler : State Res DB Write Row Key ρ ω T) where
  serial := .nil
  exclusive _ _ _ _ _ h := by simp [Server.initial] at h
  entries_one _ _ _ h := by simp [Server.initial] at h
  entries_new _ _ h := by simp [Server.initial] at h
  idle t p hp := by cases hp; exact hg t
  active _ _ h := by simp [Server.initial] at h

/-- Guarded handlers keep the two-phase-locking invariant in every reachable state. -/
theorem TwoPhase.reachable {handler : T → Proc Stmt Res ρ ω}
    (hg : ∀ t, L.GuardedProc (handler t)) (h : S.Reachable db₀ handler s) :
    TwoPhase L db₀ s := by
  obtain ⟨schedule,hr⟩ := h
  exact Transition.runs_invariant' (I := TwoPhase L db₀) (fun _ _ _ hi hn => hi.next hn)
    (TwoPhase.initial hg) hr

end Steps

section SingleTransactions
variable {L : Lawful S} {db₀ : DB} {s s' : State Res DB Write Row Key ρ (Except String ρ) T}
  {body : T → Tx Stmt Res ρ}

omit [DecidableEq T] [DecidableEq Row] [DecidableEq Key] in
theorem Serial.serial {log : List (Commit Res Write ρ T)} {db : DB} (h : Serial S db₀ log db) :
    S.serial db₀ (log.map (·.body)) = .ok db := by
  induction h with
  | nil => rfl
  | snoc _ alone ih =>
    rw [List.map_append,S.serial_append ih]
    simp [Engine.serial,alone]

omit [DecidableEq T] [DecidableEq Row] [DecidableEq Key] in
theorem Serial.db_eq {log : List (Commit Res Write ρ T)} {db : DB} (h : Serial S db₀ log db) :
    db = S.applyAll db₀ (log.flatMap (·.writes)) := by
  induction h with
  | nil => rfl
  | snoc _ _ ih => simp [ih]

omit [DecidableEq T] [DecidableEq Row] [DecidableEq Key] in
/-- Every commit of the history, with the part of the history before it. -/
theorem Serial.split {log : List (Commit Res Write ρ T)} {db : DB} (h : Serial S db₀ log db)
    {before after : List (Commit Res Write ρ T)} {c : Commit Res Write ρ T}
    (hlog : log = before++c::after) :
    ∃ db', Serial S db₀ before db' ∧ S.run none c.body db' = .ok (c.value,c.writes) := by
  induction h generalizing after with
  | nil => simp at hlog
  | @snoc log db d hbefore alone ih =>
    rcases List.eq_nil_or_concat after with rfl | ⟨after',e,rfl⟩
    · obtain ⟨rfl,hc⟩ := List.append_inj' hlog rfl
      cases hc
      exact ⟨db,hbefore,alone⟩
    · rw [List.concat_eq_append,← List.cons_append,← List.append_assoc] at hlog
      exact ih (List.append_inj' hlog rfl).1

/-- When every session runs one transaction, the history lists the ones that committed. -/
structure Accounted (body : T → Tx Stmt Res ρ)
    (s : State Res DB Write Row Key ρ (Except String ρ) T) : Prop where
  bodies : ∀ c ∈ s.log, c.body = body c.session
  nodup : (s.log.map (·.session)).Nodup
  idle : ∀ t p, s.session t = .idle p →
    (p = .transaction (body t) .done ∧ t ∉ s.log.map (·.session)) ∨
    (∃ v, p = .done (.ok v) ∧ t ∈ s.log.map (·.session)) ∨
    (∃ e, p = .done (.error e) ∧ t ∉ s.log.map (·.session))
  active : ∀ t a, s.session t = .active a →
    a.body = body t ∧ a.next = .done ∧ t ∉ s.log.map (·.session)

omit [DecidableEq Row] [DecidableEq Key] in
theorem Accounted.setActive (h : Accounted body s) {t : T}
    {a : Active Res Write Row ρ (Except String ρ)}
    (ha : a.body = body t ∧ a.next = .done ∧ t ∉ s.log.map (·.session)) :
    Accounted body (s.setActive t a) where
  bodies := h.bodies
  nodup := h.nodup
  idle u p hu := by
    rw [State.setActive_session] at hu
    split at hu
    · contradiction
    · exact h.idle u p hu
  active u b hu := by
    rw [State.setActive_session] at hu
    split at hu
    · rename_i heq
      subst heq
      cases hu
      exact ha
    · exact h.active u b hu

omit [DecidableEq Row] [DecidableEq Key] in
theorem Accounted.fail (h : Accounted body s) {t : T} {e : String}
    {a : Active Res Write Row ρ (Except String ρ)} (ha : s.session t = .active a) :
    Accounted body (s.finish t (a.next (.error e))) where
  bodies := h.bodies
  nodup := h.nodup
  idle u p hu := by
    obtain ⟨-,hn,ht⟩ := h.active t a ha
    rw [State.finish_session] at hu
    split at hu
    · rename_i heq
      subst heq
      cases hu
      exact .inr (.inr ⟨e,by rw [hn],ht⟩)
    · exact h.idle u p hu
  active u b hu := by
    rw [State.finish_session] at hu
    split at hu
    · contradiction
    · exact h.active u b hu

omit [DecidableEq Row] [DecidableEq Key] in
theorem Accounted.commit (h : Accounted body s) {t : T} {x : ρ} {db : DB}
    {a : Active Res Write Row ρ (Except String ρ)} (ha : s.session t = .active a) :
    Accounted body ((s.record db ⟨t,a.body,x,a.pending⟩).finish t (a.next (.ok x))) := by
  obtain ⟨hb,hn,ht⟩ := h.active t a ha
  refine ⟨?_,?_,fun u p hu => ?_,fun u b hu => ?_⟩
  · intro c hc
    simp only [State.finish_log,State.record_log,List.mem_append,List.mem_singleton] at hc
    rcases hc with hc | rfl
    · exact h.bodies c hc
    · exact hb
  · simp only [State.finish_log,State.record_log,List.map_append,List.map_cons,List.map_nil,
      List.nodup_append,List.nodup_singleton,List.mem_singleton]
    exact ⟨h.nodup,trivial,by rintro u hu _ rfl rfl; exact ht hu⟩
  · rw [State.finish_session] at hu
    simp only [State.finish_log,State.record_log,List.map_append,List.map_cons,List.map_nil,
      List.mem_append,List.mem_singleton]
    split at hu
    · rename_i heq
      subst heq
      cases hu
      exact .inr (.inl ⟨x,by rw [hn],.inr rfl⟩)
    · rename_i hne
      rcases h.idle u p hu with ⟨rfl,hm⟩ | ⟨v,rfl,hm⟩ | ⟨e,rfl,hm⟩
      · exact .inl ⟨rfl,by simp [hm,hne]⟩
      · exact .inr (.inl ⟨v,rfl,.inl hm⟩)
      · exact .inr (.inr ⟨e,rfl,by simp [hm,hne]⟩)
  · rw [State.finish_session] at hu
    split at hu
    · contradiction
    · rename_i hne
      obtain ⟨h1,h2,h3⟩ := h.active u b hu
      refine ⟨h1,h2,?_⟩
      simp [hne] at h3 ⊢
      exact h3

theorem Accounted.next (h : Accounted body s) {act : SessionAction Row T}
    (hs : S.next s act = some s') : Accounted body s' := by
  cases act with
  | «begin» t =>
    obtain ⟨b,next,hi,rfl⟩ := next_begin hs
    rcases h.idle t _ hi with ⟨hp,hm⟩ | ⟨v,hp,-⟩ | ⟨e,hp,-⟩
    · cases hp
      exact h.setActive ⟨rfl,rfl,hm⟩
    · contradiction
    · contradiction
  | start t plan =>
    obtain ⟨a,st,k,ha,-,-,-,rfl⟩ := next_start hs
    exact h.setActive (h.active t a ha)
  | lock t =>
    obtain ⟨a,r,m,plan,ha,-,-,rfl⟩ := next_lock hs
    have h' : Accounted body (s.takeLock t r m) := ⟨h.bodies,h.nodup,h.idle,h.active⟩
    exact h'.setActive (h.active t a ha)
  | exec t =>
    obtain ⟨a,st,k,ha,-,-,-,-,⟨r,ws,-,rfl⟩ | ⟨e,-,rfl⟩⟩ := next_exec hs
    · have h' : Accounted body (s.claim t (S.inserts st)) := ⟨h.bodies,h.nodup,h.idle,h.active⟩
      exact h'.setActive (h.active t a ha)
    · exact h.fail ha
  | commit t =>
    obtain ⟨a,x,ha,-,rfl⟩ := next_commit hs
    exact h.commit ha
  | rollback t =>
    obtain ⟨a,e,ha,-,rfl⟩ := next_rollback hs
    exact h.fail ha
  | abort t =>
    obtain ⟨a,ha,rfl⟩ := next_abort hs
    exact h.fail ha

theorem Accounted.reachable (h : S.Reachable db₀ (fun t => .transaction (body t) .done) s) :
    Accounted body s := by
  obtain ⟨schedule,hr⟩ := h
  refine Transition.runs_invariant' (I := Accounted body) (fun _ _ _ hi hn => hi.next hn) ?_ hr
  refine ⟨by simp [Server.initial],by simp [Server.initial],fun t p hp => ?_,fun t a ha => ?_⟩
  · cases hp
    exact .inl ⟨rfl,by simp [Server.initial]⟩
  · contradiction

/-- Guarded transactions are serializable in the order of their commits. -/
theorem exists_serial_order (hg : ∀ t, L.Guarded (body t) (fun _ => False))
    (h : S.Reachable db₀ (fun t => .transaction (body t) .done) s) :
    ∃ order : List T, order.Nodup ∧
      (∀ t, t ∈ order ↔ ∃ v, s.session t = .idle (.done (.ok v))) ∧
      S.serial db₀ (order.map body) = .ok s.db := by
  have htp : TwoPhase L db₀ s := TwoPhase.reachable (fun t => (hg t).single) h
  have hacc : Accounted body s := .reachable h
  refine ⟨s.log.map (·.session),hacc.nodup,fun t => ⟨fun ht => ?_,?_⟩,?_⟩
  · cases hst : s.session t with
    | active a => exact absurd ht (hacc.active t a hst).2.2
    | idle p =>
      rcases hacc.idle t p hst with ⟨-,hm⟩ | ⟨v,rfl,-⟩ | ⟨e,-,hm⟩
      · exact absurd ht hm
      · exact ⟨v,rfl⟩
      · exact absurd ht hm
  · rintro ⟨v,hv⟩
    rcases hacc.idle t _ hv with ⟨hp,-⟩ | ⟨w,-,hm⟩ | ⟨e,hp,-⟩
    · contradiction
    · exact hm
    · simp at hp
  · have hb : (s.log.map (·.session)).map body = s.log.map (·.body) := by
      rw [List.map_map]
      exact List.map_congr_left (fun c hc => (hacc.bodies c hc).symm)
    rw [hb]
    exact htp.serial.serial

end SingleTransactions
end Server
end NestHomework.Postgres
