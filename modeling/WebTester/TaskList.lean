import WebTester.Task

/-!
# The task list received from the web interface

`webiface_get_task_list` checks the reply against a regular expression and then
cuts it into `sid@lid` tokens by hand. `receive` keeps to the buffers of the source: the body
of the reply in 65536 bytes, a token in 1024 and the number of a solution in 64. `received`
reads tokens of any length; where both are defined they read the same. Numbers outside `long`
and `int` are converted as `atol` and `atoi` convert them.
-/
namespace WebTester.TaskList
open CString

/-- Where the matcher of the reply stands in a line. -/
inductive Place
  | lineStart
  | sid
  | separator
  | lid
  deriving DecidableEq, Repr

/-- `([0-9]+@[0-9]+\n)*([0-9]+@[0-9]+)?` up to the end of the text. -/
def linesMatch : Place → CStr → Bool
  | .lineStart, [] => true
  | .lineStart, c :: cs => c.isDigit && linesMatch .sid cs
  | .sid, [] => false
  | .sid, c :: cs => (c.isDigit && linesMatch .sid cs) || (c == '@' && linesMatch .separator cs)
  | .separator, [] => false
  | .separator, c :: cs => c.isDigit && linesMatch .lid cs
  | .lid, [] => true
  | .lid, c :: cs => (c.isDigit && linesMatch .lid cs) || (c == '\n' && linesMatch .lineStart cs)

/-- The whole pattern; its `$` also matches before a newline that ends the text. -/
def grammarMatch (body : CStr) : Bool :=
  linesMatch .lineStart body ||
    (body.getLast? == some '\n' && linesMatch .lineStart body.dropLast)

/-- The pairs of places that the library needs for a text that matches: one for the whole, one for
the lines that end if there are any, and one for a last line that does not end. -/
def grammarPairs (body : CStr) : ℕ :=
  if body.getLast?.any Char.isDigit then 3 else if '@' ∈ body then 2 else 1

/-- The check of the reply. The vector for the pairs is twice as long as the text, and the library
uses two thirds of it. -/
def taskListMatch (body : CStr) : Bool :=
  grammarMatch body && decide (grammarPairs body ≤ (body.length + 1) * 2 / 3)

/-- The characters a token is made of. -/
def isTokenChar (c : Char) : Bool := c.isDigit || c == '@'

/-- `Collect token`, for tokens of any length: every `@` moves the digits read so far to
`sid_pchar`. The result is `sid_pchar`, the digits after the last `@` and the unread text. -/
def collectToken : CStr → CStr → CStr → CStr × CStr × CStr
  | sid, token, [] => (sid, token, [])
  | sid, token, c :: cs =>
    if c == '@' then collectToken token [] cs
    else if c.isDigit then collectToken sid (token ++ [c]) cs
    else (sid, token, c :: cs)

/-- The `(sid, lid)` pairs in the order the parsing loop reaches them. The loop
ends at the first token without a solution or without a library number. -/
def parseBody : ℕ → CStr → List (ℤ × ℤ)
  | 0, _ => []
  | _ + 1, [] => []
  | fuel + 1, c :: cs =>
    let t := collectToken [] [] ((c :: cs).dropWhile fun c => !isTokenChar c)
    if t.1 = [] ∨ t.2.1 = [] then []
    else (atol t.1, atoi t.2.1) :: parseBody fuel t.2.2

/-- The body is copied into a buffer of 65535 characters and ends at a NUL. -/
def copyBody (text : CStr) : CStr := strncpy 65535 (text.takeWhile fun c => c != '\x00')

/-- The pairs offered by a reply, none when the reply does not match. -/
def received (text : CStr) : List (ℤ × ℤ) :=
  let body := copyBody text
  if taskListMatch body then parseBody body.length body else []

/-! ## The buffers -/

/-- The sizes of `body`, `token` and `sid_pchar`. -/
def bodySize : ℕ := 65536

def tokenSize : ℕ := 1024

def sidSize : ℕ := 64

/-- `Collect token`, unless it writes behind a buffer: a text is moved to `sid_pchar` with its
NUL. -/
def collect : CStr → CStr → CStr → Option (CStr × CStr × CStr)
  | sid, token, [] => some (sid, token, [])
  | sid, token, c :: cs =>
    if c == '@' then if token.length < sidSize then collect token [] cs else none
    else if c.isDigit then
      if token.length < tokenSize then collect sid (token ++ [c]) cs else none
    else some (sid, token, c :: cs)

section Loop

variable {σ : Type} (full : σ → Prop) [DecidablePred full] (offer : σ → ℤ × ℤ → σ)

/-- The loop over the body. `full` says that enough tasks are taken, `offer` is what is done
with a task. -/
def receiveLoop : ℕ → CStr → σ → Option σ
  | 0, _, _ => none
  | _ + 1, [], s => some s
  | fuel + 1, c :: cs, s =>
    if full s then some s
    else do
      let (sid, token, rest) ← collect [] [] ((c :: cs).dropWhile fun c => !isTokenChar c)
      if sid = [] ∨ token = [] then some s
      else if token.length < tokenSize then
        receiveLoop fuel rest (offer s (atol sid, atoi token))
      else none

/-- What is done with a reply. A body of no characters is not looked at. -/
def receive (reply : CStr) (s : σ) : Option σ :=
  if reply = [] then some s
  else if reply.length < bodySize then
    let body := copyBody reply
    if taskListMatch body then receiveLoop full offer (body.length + 1) body s else some s
  else none

/-- The tasks that were read, until enough are taken. -/
def takeAll : List (ℤ × ℤ) → σ → σ
  | [], s => s
  | k :: ks, s => if full s then s else takeAll ks (offer s k)

end Loop

/-! ## The parsing ends -/

lemma collectToken_length_le (sid token cs : CStr) :
    (collectToken sid token cs).2.2.length ≤ cs.length := by
  induction cs generalizing sid token with
  | nil => simp [collectToken]
  | cons c cs ih =>
    simp only [collectToken]
    split
    · exact (ih _ _).trans (Nat.le_succ _)
    · split
      · exact (ih _ _).trans (Nat.le_succ _)
      · exact le_rfl

/-- A token with a library number takes at least one character. -/
lemma collectToken_length_lt (cs : CStr) (h : (collectToken [] [] cs).2.1 ≠ []) :
    (collectToken [] [] cs).2.2.length < cs.length := by
  cases cs with
  | nil => simp [collectToken] at h
  | cons c cs =>
    simp only [collectToken] at h ⊢
    split
    · exact Nat.lt_succ_of_le (collectToken_length_le _ _ _)
    · split
      · exact Nat.lt_succ_of_le (collectToken_length_le _ _ _)
      · simp_all

/-- The fuel only bounds the recursion: one unit for each character is enough,
so the loop of the source ends on every reply. -/
theorem parseBody_fuel (fuel : ℕ) (body : CStr) (h : body.length ≤ fuel) :
    parseBody fuel body = parseBody body.length body := by
  induction fuel using Nat.strong_induction_on generalizing body with
  | _ fuel ih =>
    cases body with
    | nil => cases fuel <;> rfl
    | cons c cs =>
      cases fuel with
      | zero => simp at h
      | succ fuel =>
        simp only [List.length_cons] at h
        simp only [parseBody, List.length_cons]
        generalize hd : (c :: cs).dropWhile (fun c => !isTokenChar c) = ds
        have hle : ds.length ≤ cs.length + 1 := by
          rw [← hd]
          exact (List.dropWhile_sublist _).length_le
        split
        · rfl
        · rename_i hne
          rw [not_or] at hne
          have hlt := collectToken_length_lt ds hne.2
          rw [ih fuel (Nat.lt_succ_self _) _ (by omega),
            ih cs.length (by omega) _ (by omega)]

/-! ## Where the buffers are large enough -/

/-- A token that fits is read as one of any length. -/
lemma collectToken_of_collect {sid token cs : CStr} {r : CStr × CStr × CStr}
    (h : collect sid token cs = some r) : collectToken sid token cs = r := by
  induction cs generalizing sid token with
  | nil => exact Option.some.inj h
  | cons c cs ih =>
    rw [collect] at h
    rw [collectToken]
    split_ifs at h ⊢
    · exact ih h
    · exact ih h
    · exact Option.some.inj h

section Loop

variable {σ : Type} {full : σ → Prop} [DecidablePred full] {offer : σ → ℤ × ℤ → σ}

lemma receiveLoop_eq {fuel : ℕ} {body : CStr} {s r : σ}
    (h : receiveLoop full offer fuel body s = some r) :
    r = takeAll full offer (parseBody fuel body) s := by
  induction fuel generalizing body s with
  | zero => cases h
  | succ fuel ih =>
    cases body with
    | nil => exact (Option.some.inj h).symm
    | cons c cs =>
      rw [receiveLoop] at h
      rw [parseBody]
      split_ifs at h with hfull
      · obtain rfl := Option.some.inj h
        split
        · rfl
        · rw [takeAll, if_pos hfull]
      · obtain ⟨⟨sid, token, rest⟩, hcollect, h⟩ := Option.bind_eq_some_iff.1 h
        rw [collectToken_of_collect hcollect]
        dsimp only at h ⊢
        split_ifs at h ⊢ with hend hroom
        · exact (Option.some.inj h).symm
        · rw [takeAll, if_neg hfull]
          exact ih h

/-- A reply that fits is read as one of any length. -/
theorem receive_eq {reply : CStr} {s r : σ} (h : receive full offer reply s = some r) :
    r = takeAll full offer (received reply) s := by
  unfold receive at h
  unfold received
  dsimp only at h ⊢
  by_cases hmatch : taskListMatch (copyBody reply)
  · have hne : reply ≠ [] := by
      rintro rfl
      exact absurd hmatch (by decide)
    rw [if_neg hne, if_pos hmatch] at h
    rw [if_pos hmatch, ← parseBody_fuel _ _ (Nat.le_succ _)]
    split at h
    · exact receiveLoop_eq h
    · cases h
  · rw [if_neg hmatch] at h
    rw [if_neg hmatch, takeAll]
    split_ifs at h with hempty hlength
    · exact (Option.some.inj h).symm
    · exact (Option.some.inj h).symm

end Loop

example : received "12@3\n7@10\n".toList = [(12, 3), (7, 10)] := by decide
example : received "12@3\nx".toList = [] := by decide
example : received "1@2".toList = [] := by decide

end WebTester.TaskList
