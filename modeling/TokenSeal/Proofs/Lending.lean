import TokenSeal.Proofs.Buffers

/-! Runs of a pool from which buffers are lent, used and taken back in any order. Every loan behaves
like a byte string of its own: what is seen of it depends on what it began with and on its own uses,
whatever is done with others. -/

namespace TokenSeal

/-- What is done with a loan. -/
inductive Use where
  | fill (b : UInt8)
  | append (data : Bytes)
  | truncate (n : Nat)
  | resize (n : Nat)
deriving DecidableEq

/-- The same done with a byte string. -/
def Use.onBytes : Use → Bytes → Bytes
  | fill b, bytes => List.replicate bytes.length b
  | append data, bytes => bytes ++ data
  | truncate n, bytes => bytes.take n
  | resize n, bytes => bytes.take n ++ Bytes.zeros (n - bytes.length)

def Loan.apply (p : Pool) (l : Loan) : Use → Loan × Pool
  | .fill b => (l.fill b, p)
  | .append data => l.append p data
  | .truncate n => (l.truncate n, p)
  | .resize n => l.resize p n

/-- A pool, and the loans made from it by place. The place of one that has ended stays empty. -/
structure Lending where
  pool : Pool
  loans : List (Option Loan) := []
  entropy : Entropy

namespace Lending

inductive Action where
  | lend (size : Nat) (sensitive : Bool)
  | lendDecoded (text : String)
  | lendRandom (size : Nat)
  | use (place : Nat) (u : Use)
  | takeBack (place : Nat)
deriving DecidableEq

def begin (s : Lending) (l : Loan) (p : Pool) : Lending :=
  { s with pool := p, loans := s.loans ++ [some l] }

/-- The place has another loan now, or is empty. -/
def put (s : Lending) (place : Nat) (l : Option Loan) (p : Pool) : Lending :=
  { s with pool := p, loans := s.loans.set place l }

/-- The loan at a place that is not empty. -/
def live? (s : Lending) (place : Nat) : Option Loan := (s.loans[place]?).join

def perform (s : Lending) : Action → Lending
  | .lend size sensitive =>
    let (l, p) := s.pool.lend size sensitive
    s.begin l p
  | .lendDecoded text =>
    match s.pool.lendDecoded text with
    | (.ok l, p) => s.begin l p
    | (.error _, p) => { s with pool := p }
  | .lendRandom size =>
    match s.pool.lendRandom size s.entropy with
    | (.ok (l, p), e) => { s.begin l p with entropy := e }
    | (.error _, e) => { s with entropy := e }
  | .use place u =>
    match s.live? place with
    | some l =>
      let (l, p) := l.apply s.pool u
      s.put place (some l) p
    | none => s
  | .takeBack place =>
    match s.live? place with
    | some l => s.put place none (s.pool.takeBack l)
    | none => s

/-- A pool that keeps so many buffers at most, after these actions. -/
def run (limit : Nat) (e : Entropy) (actions : List Action) : Lending :=
  actions.foldl perform { pool := { limit := limit }, entropy := e }

/-- A loan of drawn bytes. -/
def randomLoan (s : Lending) (size : Nat) : Loan :=
  ⟨(s.pool.lend size true).1.buffer.overwrite (s.entropy.take size), true⟩

/-- What an action is to the loan at a place, for the bytes that are seen of it. -/
def Action.onBytes (place : Nat) : Action → Option Bytes → Option Bytes
  | .use i u, bytes => if i = place then bytes.map u.onBytes else bytes
  | .takeBack i, bytes => if i = place then none else bytes
  | _, bytes => bytes

/-- The uses among the actions that are of the loan at a place. -/
def usesOf (place : Nat) (actions : List Action) : List Use :=
  actions.filterMap fun
    | .use i u => if i = place then some u else none
    | _ => none

/-- The action makes a loan that begins with these bytes. -/
inductive Begins (s : Lending) : Action → Bytes → Prop where
  | zeros (size : Nat) (sensitive : Bool) : Begins s (.lend size sensitive) (Bytes.zeros size)
  | decoded {text : String} {bytes : Bytes} (decodes : Base64Url.decode text = .ok bytes) :
      Begins s (.lendDecoded text) bytes
  | drawn (size : Nat) : Begins s (.lendRandom size) (s.entropy.take size)

end Lending

/-! ### One action -/

theorem Loan.visible_apply (p : Pool) (l : Loan) (u : Use) :
    (l.apply p u).1.visible = u.onBytes l.visible := by
  cases u with
  | fill b => exact l.visible_fill b
  | append data => exact l.visible_append p data
  | truncate n => exact l.visible_truncate n
  | resize n => exact l.visible_resize p n

theorem Pool.Tidy.apply {p : Pool} (h : p.Tidy) (l : Loan) (u : Use) : (l.apply p u).2.Tidy := by
  cases u with
  | fill b => exact h
  | append data => exact h.reserve l data.length
  | truncate n => exact h
  | resize n => exact h.reserve l (n - l.buffer.length)

namespace Lending

variable {s : Lending} {a : Action} {place : Nat}

theorem lt_of_live? {l : Loan} (h : s.live? place = some l) : place < s.loans.length := by
  have hsome : s.loans[place]? = some (some l) := Option.join_eq_some_iff.1 h
  exact (List.getElem?_eq_some_iff.1 hsome).1

theorem live?_begin (s : Lending) (l : Loan) (p : Pool) (hplace : place < s.loans.length) :
    (s.begin l p).live? place = s.live? place := by
  rw [live?, live?, begin, List.getElem?_append_left hplace]

theorem live?_begin_self (s : Lending) (l : Loan) (p : Pool) :
    (s.begin l p).live? s.loans.length = some l := by
  rw [live?, begin, List.getElem?_concat_length]
  rfl

theorem live?_put (s : Lending) (i : Nat) (l : Option Loan) (p : Pool)
    (hplace : place < s.loans.length) :
    (s.put i l p).live? place = if i = place then l else s.live? place := by
  rw [live?, live?, put]
  by_cases hi : i = place
  · have hself : (s.loans.set i l)[place]? = some l := by
      rw [hi]
      exact List.getElem?_set_self hplace
    rw [if_pos hi, hself]
    rfl
  · rw [if_neg hi, List.getElem?_set_ne hi]

theorem visible_put (s : Lending) (i : Nat) (l : Option Loan) (p : Pool)
    (hplace : place < s.loans.length) :
    ((s.put i l p).live? place).map Loan.visible =
      if i = place then l.map Loan.visible else (s.live? place).map Loan.visible := by
  rw [live?_put s i l p hplace]
  split <;> rfl

/-- A text that cannot be decoded leaves the loans as they are. -/
theorem perform_lendDecoded_cases (h : s.pool.Tidy) (text : String) :
    (∃ l, Base64Url.decode text = .ok l.visible ∧
      s.perform (.lendDecoded text) = s.begin l (s.pool.lendDecoded text).2) ∨
    ∃ e, Base64Url.decode text = .error e ∧
      s.perform (.lendDecoded text) = { s with pool := (s.pool.lendDecoded text).2 } := by
  have hvisible := Pool.visible_lendDecoded h text
  rw [perform]
  split
  · next l p heq =>
    rw [heq, map_ok] at hvisible
    exact .inl ⟨l, hvisible.symm, by rw [heq]⟩
  · next e p heq =>
    rw [heq, map_error] at hvisible
    exact .inr ⟨e, hvisible.symm, by rw [heq]⟩

theorem tidy_perform (h : s.pool.Tidy) (a : Action) : (s.perform a).pool.Tidy := by
  cases a with
  | lend size sensitive => exact h.lend size sensitive
  | lendDecoded text =>
    have htidy := h.lendDecoded text
    obtain ⟨l, -, hperform⟩ | ⟨e, -, hperform⟩ := perform_lendDecoded_cases h text
    · rw [hperform]
      exact htidy
    · rw [hperform]
      exact htidy
  | lendRandom size =>
    rw [perform, Pool.lendRandom_apply]
    exact h.lend size true
  | use i u =>
    rw [perform]
    split
    · next l hl => exact h.apply l u
    · exact h
  | takeBack i =>
    rw [perform]
    split
    · next l hl => exact h.takeBack l
    · exact h

/-- What is seen of a loan changes with what is done with this loan only. -/
theorem visible_perform (hplace : place < s.loans.length) (a : Action) :
    ((s.perform a).live? place).map Loan.visible =
      a.onBytes place ((s.live? place).map Loan.visible) := by
  cases a with
  | lend size sensitive => exact congrArg _ (s.live?_begin _ _ hplace)
  | lendDecoded text =>
    rw [perform]
    split
    · exact congrArg _ (s.live?_begin _ _ hplace)
    · rfl
  | lendRandom size =>
    exact congrArg _ (s.live?_begin (s.randomLoan size) (s.pool.lend size true).2 hplace)
  | use i u =>
    rw [perform, Action.onBytes]
    split
    · next l hl =>
      rw [visible_put _ _ _ _ hplace]
      split
      · next hi => rw [← hi, hl, Option.map_some, Option.map_some, Option.map_some, l.visible_apply]
      · rfl
    · next hnone =>
      split
      · next hi => rw [← hi, hnone, Option.map_none, Option.map_none]
      · rfl
  | takeBack i =>
    rw [perform, Action.onBytes]
    split
    · next l hl => exact visible_put _ _ _ _ hplace
    · next hnone =>
      split
      · next hi => rw [← hi, hnone, Option.map_none]
      · rfl

theorem begins_perform (h : s.pool.Tidy) {bytes : Bytes} (hbegins : s.Begins a bytes) :
    (∃ l, (s.perform a).live? s.loans.length = some l ∧ l.visible = bytes) ∧
      (s.perform a).loans.length = s.loans.length + 1 := by
  cases hbegins with
  | zeros size sensitive =>
    exact ⟨⟨_, s.live?_begin_self _ _, Pool.visible_lend h size sensitive⟩, List.length_append⟩
  | @decoded text _ decodes =>
    obtain ⟨l, hdecode, hperform⟩ | ⟨e, hdecode, -⟩ := perform_lendDecoded_cases h text
    · have hbytes : l.visible = bytes := Except.ok.inj (hdecode.symm.trans decodes)
      rw [hperform]
      exact ⟨⟨l, s.live?_begin_self _ _, hbytes⟩, List.length_append⟩
    · cases hdecode.symm.trans decodes
  | drawn size =>
    have hvisible : (s.randomLoan size).visible = s.entropy.take size :=
      Buffer.visible_overwrite _ _
    exact ⟨⟨_, s.live?_begin_self (s.randomLoan size) (s.pool.lend size true).2, hvisible⟩,
      List.length_append⟩

/-- Another place is filled only by an action that begins a loan. -/
theorem length_perform (h : s.pool.Tidy) (a : Action) :
    (s.perform a).loans.length = s.loans.length ∨ ∃ bytes, s.Begins a bytes := by
  cases a with
  | lend size sensitive => exact .inr ⟨_, .zeros size sensitive⟩
  | lendDecoded text =>
    obtain ⟨l, hdecode, -⟩ | ⟨e, -, hperform⟩ := perform_lendDecoded_cases h text
    · exact .inr ⟨l.visible, .decoded hdecode⟩
    · exact .inl (by rw [hperform])
  | lendRandom size => exact .inr ⟨_, .drawn size⟩
  | use i u =>
    refine .inl ?_
    rw [perform]
    split
    · exact List.length_set
    · rfl
  | takeBack i =>
    refine .inl ?_
    rw [perform]
    split
    · exact List.length_set
    · rfl

theorem length_le_perform (h : s.pool.Tidy) (a : Action) :
    s.loans.length ≤ (s.perform a).loans.length := by
  rcases length_perform h a with hsame | ⟨bytes, hbegins⟩
  · omega
  · have hmore := (begins_perform h hbegins).2
    omega

/-! ### Runs -/

theorem tidy_run (limit : Nat) (e : Entropy) (actions : List Action) :
    (run limit e actions).pool.Tidy := by
  induction actions using List.reverseRecOn with
  | nil => exact fun b hb => nomatch hb
  | append_singleton actions a ih =>
    rw [run, List.foldl_append]
    exact tidy_perform ih a

theorem visible_foldl (h : s.pool.Tidy) (hplace : place < s.loans.length) (later : List Action) :
    ((later.foldl perform s).live? place).map Loan.visible =
      later.foldl (fun bytes a => a.onBytes place bytes) ((s.live? place).map Loan.visible) := by
  induction later generalizing s with
  | nil => rfl
  | cons a rest ih =>
    have hlater : place < (s.perform a).loans.length :=
      Nat.lt_of_lt_of_le hplace (length_le_perform h a)
    rw [List.foldl_cons, List.foldl_cons, ih (tidy_perform h a) hlater, visible_perform hplace]

theorem foldl_onBytes_none (place : Nat) (later : List Action) :
    later.foldl (fun bytes a => a.onBytes place bytes) none = none := by
  induction later with
  | nil => rfl
  | cons a rest ih =>
    have hnone : a.onBytes place none = none := by
      cases a <;> simp [Action.onBytes]
    rw [List.foldl_cons, hnone, ih]

theorem foldl_onBytes_some (place : Nat) (later : List Action) (bytes : Bytes) :
    (.takeBack place ∈ later →
      later.foldl (fun bytes a => a.onBytes place bytes) (some bytes) = none) ∧
    (.takeBack place ∉ later →
      later.foldl (fun bytes a => a.onBytes place bytes) (some bytes) =
        some ((usesOf place later).foldl (fun bytes u => u.onBytes bytes) bytes)) := by
  induction later generalizing bytes with
  | nil => exact ⟨fun h => (nomatch h), fun _ => rfl⟩
  | cons a rest ih =>
    rw [List.foldl_cons, List.mem_cons, not_or]
    cases a with
    | lend size sensitive => simpa [usesOf, Action.onBytes] using ih bytes
    | lendDecoded text => simpa [usesOf, Action.onBytes] using ih bytes
    | lendRandom size => simpa [usesOf, Action.onBytes] using ih bytes
    | use i u =>
      by_cases hi : i = place
      · simpa [usesOf, Action.onBytes, hi] using ih (u.onBytes bytes)
      · simpa [usesOf, Action.onBytes, hi] using ih bytes
    | takeBack i =>
      by_cases hi : i = place
      · have hended : Action.onBytes place (.takeBack i) (some bytes) = none := if_pos hi
        rw [hended, foldl_onBytes_none]
        simp [hi]
      · simpa [usesOf, Action.onBytes, hi, Ne.symm hi] using ih bytes

theorem exists_begins (limit : Nat) (e : Entropy) (actions : List Action) {place : Nat}
    (hplace : place < (run limit e actions).loans.length) :
    ∃ before a later bytes, actions = before ++ a :: later ∧
      (run limit e before).Begins a bytes ∧ place = (run limit e before).loans.length := by
  induction actions using List.reverseRecOn with
  | nil => exact nomatch hplace
  | append_singleton actions a ih =>
    by_cases hearlier : place < (run limit e actions).loans.length
    · obtain ⟨before, b, later, bytes, rfl, hbegins, hlength⟩ := ih hearlier
      exact ⟨before, b, later ++ [a], bytes, by simp, hbegins, hlength⟩
    · have hrun : run limit e (actions ++ [a]) = (run limit e actions).perform a := by
        rw [run, List.foldl_append]
        rfl
      rw [hrun] at hplace
      rcases length_perform (tidy_run limit e actions) a with hsame | ⟨bytes, hbegins⟩
      · omega
      · have hmore := (begins_perform (tidy_run limit e actions) hbegins).2
        exact ⟨actions, a, [], bytes, rfl, hbegins, by omega⟩

/-- A loan looks like a byte string of its own. It begins as zeros, as what a text decodes to or as
drawn bytes, and undergoes its own uses until it is taken back. What is done with other loans, what
they leave in the buffers and where the buffers move cannot be seen of it. -/
theorem visible_of_run (limit : Nat) (e : Entropy) (actions : List Action) :
    let s := run limit e actions
    (∀ before a later bytes, actions = before ++ a :: later → (run limit e before).Begins a bytes →
      let place := (run limit e before).loans.length
      (.takeBack place ∈ later → s.live? place = none) ∧
      (.takeBack place ∉ later → ∃ l, s.live? place = some l ∧
        l.visible = (usesOf place later).foldl (fun bytes u => u.onBytes bytes) bytes ∧
        l.buffer.length = l.visible.length)) ∧
    (∀ place l, s.live? place = some l → ∃ before a later bytes, actions = before ++ a :: later ∧
      (run limit e before).Begins a bytes ∧ place = (run limit e before).loans.length) ∧
    ∀ text, (s.pool.lendDecoded text).1.map Loan.visible = Base64Url.decode text := by
  intro s
  refine ⟨?_, fun place l hl => ?_, Pool.visible_lendDecoded (tidy_run limit e actions)⟩
  · rintro before a later bytes rfl hbegins place
    have htidy := tidy_run limit e before
    obtain ⟨⟨l, hl, rfl⟩, hmore⟩ := begins_perform htidy hbegins
    have hs : s = later.foldl perform ((run limit e before).perform a) := by
      simp only [s, run, List.foldl_append, List.foldl_cons]
    have hvisible : (s.live? place).map Loan.visible =
        later.foldl (fun bytes a => a.onBytes place bytes) (some l.visible) := by
      rw [hs, visible_foldl (tidy_perform htidy a) (by omega), hl, Option.map_some]
    obtain ⟨hended, hused⟩ := foldl_onBytes_some place later l.visible
    constructor
    · intro htaken
      rw [hended htaken] at hvisible
      exact Option.map_eq_none_iff.1 hvisible
    · intro hkept
      rw [hused hkept] at hvisible
      obtain ⟨l', hl', hbytes⟩ := Option.map_eq_some_iff.1 hvisible
      exact ⟨l', hl', hbytes, l'.buffer.length_visible.symm⟩
  · exact exists_begins limit e actions (lt_of_live? hl)

/-- The second loan has the buffer of the first one, in which the bytes of that one still are, shows
more of it after a while, and outgrows it. The third loan is then made in what it left. -/
theorem visible_of_run_reused :
    let first : List Action := [.lend 4 false, .use 0 (.fill 170), .takeBack 0]
    let second : List Action := [.use 1 (.resize 4), .use 1 (.append [7])]
    let third : List Action := [.use 2 (.truncate 1), .use 2 (.resize 3)]
    let s := run 8 (.scrambled 0) (first ++ .lend 2 true :: (second ++ .lendDecoded "AQI" :: third))
    s.live? 0 = none ∧ (∃ l, s.live? 1 = some l ∧ l.visible = [0, 0, 0, 0, 7]) ∧
      ∃ l, s.live? 2 = some l ∧ l.visible = [1, 0, 0] := by
  intro first second third s
  obtain ⟨hloans, -⟩ := visible_of_run 8 (.scrambled 0)
    (first ++ .lend 2 true :: (second ++ .lendDecoded "AQI" :: third))
  refine ⟨?_, ?_, ?_⟩
  · exact (hloans [] _ _ _ rfl (.zeros 4 false)).1 (by decide)
  · obtain ⟨l, hl, hvisible, -⟩ :=
      (hloans first _ _ _ rfl (.zeros 2 true)).2 (by decide)
    exact ⟨l, hl, hvisible.trans rfl⟩
  · obtain ⟨l, hl, hvisible, -⟩ :=
      (hloans (first ++ .lend 2 true :: second) _ third [1, 2] rfl (.decoded rfl)).2 (by decide)
    exact ⟨l, hl, hvisible.trans rfl⟩

end Lending

end TokenSeal
