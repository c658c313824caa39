import NestHomework.Shared.Separator
import NestHomework.UserService.SoftDelete

/-! Which query a key of the cache stands for. The texts of a request stand in the key as they are,
and two words of the key stand for what is not there. -/
namespace NestHomework.UserService
open Shared

/-- What a request asks the repository for. -/
structure UsersPageRequest where
  username : Option String
  cursor : Option String
  limit : ℕ
  deriving DecidableEq, Repr

/-- The text to look for in the usernames, the cursor, and the length of the page. -/
structure UsersQuery where
  contains : Option String
  cursor : Option String
  limit : ℕ
  deriving DecidableEq, Repr

theorem CacheService.toList_usersKey (username cursor : Option String) (limit : ℕ) :
    (usersKey username cursor limit).toList =
      ("cache:users:".toList++((username.getD "all").toList++
        (":cursor=".toList++(cursor.getD "start").toList))++":limit".toList)++
        '='::Nat.toDigits 10 limit := by
  have hlimit : ":limit=".toList = ":limit".toList++['='] := by decide
  unfold usersKey
  rw [Nat.toString_eq_repr]
  -- the literals are closed off, lest they be compared letter by letter
  generalize ":limit=" = last at hlimit ⊢
  generalize "cache:users:" = first
  generalize ":cursor=" = separator
  simp only [String.toList_append,hlimit,List.append_assoc,Nat.toList_repr,List.singleton_append]

namespace UsersPageRequest
variable (r r' : UsersPageRequest)

def key : String := CacheService.usersKey r.username r.cursor r.limit

def query : UsersQuery := ⟨UsersRepository.given r.username,UsersRepository.given r.cursor,r.limit⟩

/-- The repository answers the query. -/
theorem findAll_congr {r r' : UsersPageRequest} (h : r.query = r'.query) (db : UsersDb)
    (c : UsersConfig) : UsersRepository.findAll db c r.cursor r.limit r.username =
      UsersRepository.findAll db c r'.cursor r'.limit r'.username := by
  obtain ⟨husername,hcursor,hlimit⟩ := UsersQuery.mk.inj h
  have hcontains : UsersRepository.contains c r.username = UsersRepository.contains c r'.username := by
    funext a
    rw [UsersRepository.contains,UsersRepository.contains,husername]
  have hcandidates : UsersRepository.candidates db c r.cursor r.username =
      UsersRepository.candidates db c r'.cursor r'.username := by
    rw [UsersRepository.candidates,UsersRepository.candidates,hcontains,hcursor]
  have hskip : UsersRepository.skip r.cursor = UsersRepository.skip r'.cursor := by
    rw [UsersRepository.skip,UsersRepository.skip,hcursor]
  rw [UsersRepository.findAll,UsersRepository.findAll,UsersRepository.findAllOf,
    UsersRepository.findAllOf,hcandidates,hskip,hlimit]

/-- One of the two says the word that stands for the absence of the other. -/
def Mistaken (word : String) (a b : Option String) : Prop :=
  (a = none ∧ b = some word) ∨ (a = some word ∧ b = none)

/-- One request says a default word where the other one leaves it to the key. -/
def SaysDefault : Prop :=
  (Mistaken "all" r.username r'.username ∧
    (r.cursor = r'.cursor ∨ Mistaken "start" r.cursor r'.cursor)) ∨
  (r.username = r'.username ∧ Mistaken "start" r.cursor r'.cursor)

/-- The separator of the key stands in the username of one request and in the cursor of the other. -/
def RunsOver : Prop :=
  ∃ text, r'.username = some (r.username.getD "all"++":cursor="++text) ∧
    r.cursor = some (text++":cursor="++r'.cursor.getD "start")

def Collides : Prop :=
  r.limit = r'.limit ∧ (SaysDefault r r' ∨ RunsOver r r' ∨ RunsOver r' r)

variable {r r'}

theorem key_eq_iff : r.key = r'.key ↔ r.limit = r'.limit ∧
    (r.username.getD "all").toList++(":cursor=".toList++(r.cursor.getD "start").toList) =
      (r'.username.getD "all").toList++(":cursor=".toList++(r'.cursor.getD "start").toList) := by
  have hdigit : ∀ n, '=' ∉ Nat.toDigits 10 n := fun n h =>
    absurd (Nat.isDigit_of_mem_toDigits (by decide) (by decide) h) (by decide)
  rw [key,key,← String.toList_inj,CacheService.toList_usersKey,CacheService.toList_usersKey,
    append_cons_inj_of_not_mem (hdigit _) (hdigit _),CacheService.toDigits_injective.eq_iff,
    and_comm,List.append_cancel_right_eq,List.append_cancel_left_eq]

theorem getD_eq_iff {word : String} {a b : Option String} :
    a.getD word = b.getD word ↔ a = b ∨ Mistaken word a b := by
  unfold Mistaken
  cases a <;> cases b <;> simp [eq_comm]

theorem given_some {text : String} (h : text ≠ "") : UsersRepository.given (some text) = some text := by
  rw [UsersRepository.given,Option.filter_some,if_pos (by simp [h])]

theorem Mistaken.given_ne {word : String} {a b : Option String} (hword : word ≠ "")
    (h : Mistaken word a b) : UsersRepository.given a ≠ UsersRepository.given b := by
  obtain ⟨rfl,rfl⟩ | ⟨rfl,rfl⟩ := h
  · rw [given_some hword]
    exact nofun
  · rw [given_some hword]
    exact nofun

/-- A text with a colon is no default word. -/
theorem eq_some_of_getD {word text : String} {a : Option String} (hword : ':' ∉ word.toList)
    (h : a.getD word = text) (htext : ':' ∈ text.toList) : a = some text := by
  cases a with
  | none =>
    subst h
    exact absurd htext hword
  | some text' => rw [← h,Option.getD_some]

theorem cursor_text : ":cursor=".toList = ':'::"cursor=".toList := by decide

theorem mem_append_cursor (xs ys : String) : ':' ∈ (xs++":cursor="++ys).toList := by
  rw [String.toList_append,String.toList_append,cursor_text]
  simp

theorem runsOver_of_split {x : List Char}
    (husername : (r'.username.getD "all").toList =
      (r.username.getD "all").toList++(':'::"cursor=".toList++x))
    (hcursor : (r.cursor.getD "start").toList =
      x++(':'::"cursor=".toList++(r'.cursor.getD "start").toList)) : RunsOver r r' := by
  have hname : r'.username.getD "all" = r.username.getD "all"++":cursor="++String.ofList x := by
    rw [← String.toList_inj,husername,String.toList_append,String.toList_append,cursor_text]
    simp
  have hstart : r.cursor.getD "start" = String.ofList x++":cursor="++r'.cursor.getD "start" := by
    rw [← String.toList_inj,hcursor,String.toList_append,String.toList_append,cursor_text]
    simp
  exact ⟨String.ofList x,eq_some_of_getD (by decide) hname (mem_append_cursor ..),
    eq_some_of_getD (by decide) hstart (mem_append_cursor ..)⟩

theorem RunsOver.key_eq (hlimit : r.limit = r'.limit) (h : RunsOver r r') : r.key = r'.key := by
  obtain ⟨text,husername,hcursor⟩ := h
  refine key_eq_iff.mpr ⟨hlimit,?_⟩
  rw [husername,hcursor,Option.getD_some,Option.getD_some]
  simp only [String.toList_append,List.append_assoc]

theorem RunsOver.query_ne (h : RunsOver r r') : r.query ≠ r'.query := by
  obtain ⟨text,husername,-⟩ := h
  intro heq
  have hgiven : UsersRepository.given r.username = UsersRepository.given r'.username :=
    (UsersQuery.mk.inj heq).1
  have hne : r.username.getD "all"++":cursor="++text ≠ "" := by
    intro hempty
    have hmem := mem_append_cursor (r.username.getD "all") text
    rw [hempty] at hmem
    contradiction
  rw [husername,given_some hne] at hgiven
  have hsome : r.username = some (r.username.getD "all"++":cursor="++text) :=
    (Option.filter_eq_some_iff.mp hgiven).1
  have hlen := congrArg (fun name => (name.getD "all").toList.length) hsome
  simp only [Option.getD_some,String.toList_append,List.length_append,cursor_text,
    List.length_cons] at hlen
  omega

theorem SaysDefault.key_eq (hlimit : r.limit = r'.limit) (h : SaysDefault r r') : r.key = r'.key := by
  have htexts : r.username.getD "all" = r'.username.getD "all" ∧
      r.cursor.getD "start" = r'.cursor.getD "start" := by
    rw [getD_eq_iff,getD_eq_iff]
    obtain ⟨hname,hcursor⟩ | ⟨hname,hcursor⟩ := h
    · exact ⟨.inr hname,hcursor⟩
    · exact ⟨.inl hname,.inr hcursor⟩
  exact key_eq_iff.mpr ⟨hlimit,by rw [htexts.1,htexts.2]⟩

theorem SaysDefault.query_ne (h : SaysDefault r r') : r.query ≠ r'.query := by
  intro heq
  obtain ⟨hname,hcursor,-⟩ := UsersQuery.mk.inj heq
  obtain ⟨hmistaken,-⟩ | ⟨-,hmistaken⟩ := h
  · exact hmistaken.given_ne (by decide) hname
  · exact hmistaken.given_ne (by decide) hcursor

/-- The requests that a key confuses. -/
theorem collides_iff : Collides r r' ↔ r.key = r'.key ∧ r.query ≠ r'.query := by
  constructor
  · rintro ⟨hlimit,hdefault | hover | hover⟩
    · exact ⟨hdefault.key_eq hlimit,hdefault.query_ne⟩
    · exact ⟨hover.key_eq hlimit,hover.query_ne⟩
    · exact ⟨(hover.key_eq hlimit.symm).symm,hover.query_ne.symm⟩
  · rintro ⟨hkey,hquery⟩
    obtain ⟨hlimit,htext⟩ := key_eq_iff.mp hkey
    refine ⟨hlimit,?_⟩
    rw [cursor_text,append_separator_inj (by decide)] at htext
    obtain ⟨hname,hcursor⟩ | ⟨x,hname,hcursor⟩ | ⟨x,hname,hcursor⟩ := htext
    · rw [String.toList_inj,getD_eq_iff] at hname hcursor
      -- the texts of the keys agree, so the requests differ in a default word
      cases hname with
      | inl hname =>
        cases hcursor with
        | inl hcursor => exact absurd (by rw [query,query,hname,hcursor,hlimit]) hquery
        | inr hcursor => exact .inl (.inr ⟨hname,hcursor⟩)
      | inr hname => exact .inl (.inl ⟨hname,hcursor⟩)
    · exact .inr (.inl (runsOver_of_split hname hcursor))
    · exact .inr (.inr (runsOver_of_split hname hcursor))

end UsersPageRequest

open UsersPageRequest in
/-- Requests with one key ask for the same, unless they collide. -/
theorem keys_identify_queries_iff (r r' : UsersPageRequest) :
    (r.key = r'.key → r.query = r'.query) ↔ ¬Collides r r' := by
  rw [collides_iff,not_and,not_not]

/-- To look for users whose names have `all` in them is to ask for all users: Bob gets the page of
his last request, which nobody of that name is on. -/
theorem all_is_a_username :
    let c : UsersConfig := ⟨5,30000,containsInsensitive⟩
    let s := UsersState.after c [.write (.register "alice@mail.ru" "alice" "hash" UsersState.alice),
      .wait 5,.write (.register "bob@mail.ru" "bob" "hash" UsersState.bob),
      .findAll ⟨UsersState.bob.text,none,none,none⟩]
    UsersPageRequest.key ⟨none,none,10⟩ = UsersPageRequest.key ⟨some "all",none,10⟩ ∧
    UsersPageRequest.query ⟨none,none,10⟩ ≠ UsersPageRequest.query ⟨some "all",none,10⟩ ∧
    (UsersService.findAll c s ⟨UsersState.bob.text,some "all",none,none⟩).1.map
      (fun page => page.data.map (·.username)) = .ok ["alice","bob"] ∧
    UsersRepository.findAll s.db c none 10 (some "all") = .ok ⟨[],none,false⟩ := by
  decide +kernel

end NestHomework.UserService
