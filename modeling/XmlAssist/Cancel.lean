/-!
# Giving up a request

A request that takes long asks now and then whether its answer is still wanted. It then stops and
answers with what it has.
-/

namespace XmlAssist

/-- When a request is given up. -/
inductive Cancel where
  | never
  /-- So many times the answer is still wanted, and then no longer. -/
  | after (polls : Nat)
deriving DecidableEq, Repr, Inhabited

namespace Cancel

/-- Asks whether the request is given up; what remains is the answer to later polls. -/
def poll : Cancel → Bool × Cancel
  | .never => (false, .never)
  | .after 0 => (true, .after 0)
  | .after (n + 1) => (false, .after n)

/-- A request that is given up stays so. -/
theorem poll_of_poll {c : Cancel} (h : c.poll.1 = true) : c.poll.2.poll = c.poll := by
  match c with
  | .never => simp [poll] at h
  | .after 0 => rfl
  | .after (n + 1) => simp [poll] at h

end Cancel

end XmlAssist
