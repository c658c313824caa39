import NestHomework.UserService.Auth

/-! A deleted account gets no more tokens, once the calls that were running have ended. -/
namespace NestHomework.UserService
open Contracts Transition

/-- The stages that are not on the way from a check of the account to its tokens. -/
def AuthStage.unchecked : AuthStage → Bool
  | .patch | .authenticate .. | .set .. => false
  | _ => true

namespace AuthRun
variable {o : TokenOptions} {s t u : AuthRun} {a : AuthAction} {as : List AuthAction} {i : ℕ}
  {c : AuthCall} {account : Uuid}

/-- The tokens of either kind. -/
def signed (s : AuthRun) : List Jwt := s.accessTokens++s.refreshTokens

theorem signed_subset_of_next (h : s.next o a = some t) : s.signed ⊆ t.signed := by
  intro T hT
  rw [signed,List.mem_append] at hT
  cases turn_of_next h with
  | waits | starts | moves | sets | leaves => exact List.mem_append.mpr hT
  | signs =>
    rw [signed,List.mem_append]
    exact hT.imp (List.mem_append_left _) (List.mem_append_left _)

/-- The account is there and deleted, and no call is about to sign for it. -/
structure Closed (account : Uuid) (s : AuthRun) : Prop where
  present : ∃ row ∈ s.accounts, row.id = account
  deleted : ∀ row ∈ s.accounts, row.id = account → row.deleted
  calls : ∀ c ∈ s.calls, c.account = account → c.stage.unchecked

theorem Closed.of_not_busy (present : ∃ row ∈ s.accounts, row.id = account)
    (deleted : ∀ row ∈ s.accounts, row.id = account → row.deleted)
    (idle : busy s.calls account = false) : s.Closed account := by
  refine ⟨present,deleted,fun c hc hid => ?_⟩
  have hstop := List.any_eq_false.mp idle c hc
  simp only [hid,decide_true,Bool.true_and,Bool.not_eq_true] at hstop
  cases hstage : c.stage <;> rw [hstage] at hstop <;> first | rfl | contradiction

theorem Closed.congr (h : s.Closed account) (haccounts : t.accounts = s.accounts)
    (hcalls : t.calls = s.calls) : t.Closed account :=
  ⟨haccounts ▸ h.present,haccounts ▸ h.deleted,hcalls ▸ h.calls⟩

/-- What keeps the rows under their ids, deleted where they were, keeps the account closed. -/
theorem Closed.map (h : s.Closed account) {f : Account → Account} (id : ∀ row, (f row).id = row.id)
    (deleted : ∀ row, row.deleted → (f row).deleted) :
    Closed account {s with accounts := s.accounts.map f} := by
  obtain ⟨row,hrow,hid⟩ := h.present
  refine ⟨⟨f row,List.mem_map_of_mem hrow,(id row).trans hid⟩,fun row' hrow' hid' => ?_,h.calls⟩
  obtain ⟨old,hold,rfl⟩ := List.mem_map.mp hrow'
  exact deleted old (h.deleted old hold ((id old).symm.trans hid'))

theorem Closed.insert (h : s.Closed account) {row : Account} (hid : row.id ≠ account) :
    Closed account {s with accounts := s.accounts++[row]} := by
  obtain ⟨old,hold,hold'⟩ := h.present
  refine ⟨⟨old,List.mem_append_left _ hold,hold'⟩,fun row' hrow' hid' => ?_,h.calls⟩
  obtain hrow' | hrow' := List.mem_append.mp hrow'
  · exact h.deleted row' hrow' hid'
  · rw [List.mem_singleton.mp hrow'] at hid'
    exact absurd hid' hid

theorem Closed.start (h : s.Closed account) {id : Uuid} {stage : AuthStage}
    (hstage : id = account → stage.unchecked) : (s.start id stage).Closed account := by
  refine ⟨h.present,h.deleted,fun d hd hid => ?_⟩
  obtain hd | hd := List.mem_append.mp hd
  · exact h.calls d hd hid
  · rw [List.mem_singleton.mp hd] at hid ⊢
    exact hstage hid

theorem Closed.goTo (h : s.Closed account) {stage : AuthStage}
    (hstage : c.account = account → stage.unchecked) : (s.goTo i c stage).Closed account := by
  refine ⟨h.present,h.deleted,fun d hd hid => ?_⟩
  obtain hd | rfl := List.mem_or_eq_of_mem_set hd
  · exact h.calls d hd hid
  · exact hstage hid

theorem Closed.fail (h : s.Closed account) {e : RpcException} (hf : s.fail i c e = some t) :
    t.Closed account ∧ t.signed = s.signed := by
  cases hf
  exact ⟨h.goTo (fun _ => rfl),rfl⟩

/-- The row that a call finds for the account is deleted. -/
theorem Closed.find (h : s.Closed account) {p : Account → Bool} {row : Account}
    (hf : s.findBy p = some row) (hid : row.id = account) : row.deleted :=
  h.deleted row (List.mem_of_find?_eq_some hf) hid

theorem Closed.command (h : s.Closed account) (hc : s.calls[i]? = some c)
    (hn : s.command o i c = some t) :
    t.Closed account ∧ ∀ T ∈ t.signed, T.id = account → T ∈ s.signed := by
  have hcall := h.calls c (List.mem_of_getElem? hc)
  have hsame : t.Closed account ∧ t.signed = s.signed →
      t.Closed account ∧ ∀ T ∈ t.signed, T.id = account → T ∈ s.signed :=
    fun ⟨hclosed,heq⟩ => ⟨hclosed,fun T hT _ => heq ▸ hT⟩
  obtain ⟨id,stage⟩ := c
  cases stage with
  | register email username otp =>
    simp only [AuthRun.command] at hn
    split at hn
    · exact hsame (h.fail hn)
    · cases hn
      exact hsame ⟨h.goTo (fun _ => rfl),rfl⟩
  | create email username otp =>
    simp only [AuthRun.command] at hn
    split at hn
    · exact hsame (h.fail hn)
    next hnone =>
      have hid : id ≠ account := by
        rintro rfl
        obtain ⟨row,hrow,hid⟩ := h.present
        have hnot := List.find?_eq_none.mp hnone row hrow
        simp [hid] at hnot
      have hcreated := @Closed.insert s account h ⟨id,username,email,.user,false,false⟩ hid
      split at hn
      · exact hsame (hcreated.fail hn)
      · cases hn
        exact hsame ⟨hcreated.goTo (fun _ => rfl),rfl⟩
  | verify email otp =>
    simp only [AuthRun.command] at hn
    split at hn
    · exact hsame (h.fail hn)
    next row hrow =>
      split at hn
      · contradiction
      next hid =>
        split at hn
        · exact hsame (h.fail hn)
        next hopen =>
          split at hn
          · exact hsame (h.fail hn)
          · cases hn
            refine hsame ⟨h.goTo (fun heq => ?_),rfl⟩
            have hdeleted := h.find hrow ((not_not.mp hid).trans heq)
            simp [hdeleted] at hopen
  | patch =>
    have hid : id ≠ account := fun heq => absurd (hcall heq) Bool.false_ne_true
    simp only [AuthRun.command] at hn
    split at hn
    · exact hsame (h.fail hn)
    · cases hn
      refine hsame ⟨Closed.goTo (s := {s with accounts := _}) (h.map ?_ ?_)
        (fun heq => absurd heq hid),rfl⟩
      · intro row
        split <;> rfl
      · intro row hrow
        split <;> exact hrow
  | login username isValidPassword =>
    simp only [AuthRun.command] at hn
    split at hn
    · exact hsame (h.fail hn)
    next row hrow =>
      split at hn
      · contradiction
      next hid =>
        split at hn
        · exact hsame (h.fail hn)
        next hopen =>
          split at hn
          · exact hsame (h.fail hn)
          · cases hn
            refine hsame ⟨h.goTo (fun heq => ?_),rfl⟩
            have hdeleted := h.find hrow ((not_not.mp hid).trans heq)
            simp [hdeleted] at hopen
  | refresh refreshToken =>
    simp only [AuthRun.command] at hn
    split at hn
    · cases hn
      exact hsame ⟨h.goTo (fun _ => rfl),rfl⟩
    · exact hsame (h.fail hn)
  | find refreshToken =>
    simp only [AuthRun.command] at hn
    split at hn
    · exact hsame (h.fail hn)
    next row hrow =>
      split at hn
      · exact hsame (h.fail hn)
      next hopen =>
        cases hn
        refine hsame ⟨h.goTo (fun heq => ?_),rfl⟩
        have hid := List.find?_some hrow
        exact absurd (h.find hrow ((of_decide_eq_true hid).trans heq)) hopen
  | authenticate role refreshToken =>
    have hid : id ≠ account := fun heq => absurd (hcall heq) Bool.false_ne_true
    cases hn
    refine ⟨(h.goTo fun heq => absurd heq hid).congr rfl rfl,fun T hT hTid => ?_⟩
    simp only [signed,List.mem_append,List.mem_singleton] at hT ⊢
    obtain (hT | rfl) | (hT | rfl) := hT
    · exact .inl hT
    · exact absurd hTid hid
    · exact .inr hT
    · exact absurd hTid hid
  | set tokens refreshToken =>
    have hid : id ≠ account := fun heq => absurd (hcall heq) Bool.false_ne_true
    simp only [AuthRun.command] at hn
    split at hn
    · exact hsame (h.fail hn)
    · cases hn
      exact hsame ⟨(h.goTo fun heq => absurd heq hid).congr rfl rfl,rfl⟩
  | logout alone =>
    cases hn
    exact hsame ⟨(h.goTo fun _ => rfl).congr rfl rfl,rfl⟩
  | returned result => contradiction

theorem Closed.next (h : s.Closed account) (hn : s.next o a = some t) :
    t.Closed account ∧ ∀ T ∈ t.signed, T.id = account → T ∈ s.signed := by
  cases a with
  | register | verify | login =>
    cases hn
    exact ⟨h.start (fun _ => rfl),fun T hT _ => hT⟩
  | refresh refreshToken | logout refreshToken =>
    simp only [AuthRun.next] at hn
    split at hn
    · split at hn
      · cases hn
        exact ⟨h,fun T hT _ => hT⟩
      · cases hn
        exact ⟨h.start (fun _ => rfl),fun T hT _ => hT⟩
    · contradiction
  | command i =>
    obtain ⟨c,hc,hcommand⟩ := Option.bind_eq_some_iff.mp hn
    exact h.command hc hcommand
  | delete id =>
    cases hn
    refine ⟨h.map ?_ ?_,fun T hT _ => hT⟩
    · intro row
      split <;> rfl
    · intro row hrow
      split
      · rfl
      · exact hrow
  | tick ms =>
    cases hn
    exact ⟨⟨h.present,h.deleted,h.calls⟩,fun T hT _ => hT⟩

end AuthRun
end NestHomework.UserService
