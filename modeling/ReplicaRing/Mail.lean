import ReplicaRing.Call

/-! Handing letters over. A post may refuse a letter; those behind it are handed over all the
same, since copies to different holders have nothing to do with each other. -/

namespace ReplicaRing

/-- Something that takes letters, or refuses them, and changes as it does. -/
structure Post (σ : Type) where
  hand : Letter → σ → Except NetworkError Unit × σ

/-- Hands over some letters one after the other, whatever becomes of each. -/
def Post.handAll {σ : Type} (post : Post σ) : List Letter → σ → σ
  | [], state => state
  | letter :: rest, state => handAll post rest (post.hand letter state).2

structure Posting where
  letter : Letter
  accepted : Bool
  deriving DecidableEq, Repr

/-- A post that keeps a record and delivers nothing. Some endpoints refuse all mail. -/
structure Recorder where
  refusing : List Endpoint
  postings : List Posting
  deriving DecidableEq, Repr

def Recorder.post : Post Recorder where
  hand letter recorder :=
    if recorder.refusing.contains letter.target then
      (.error (.unreachable letter.target),
        { recorder with postings := recorder.postings ++ [⟨letter, false⟩] })
    else (.ok (), { recorder with postings := recorder.postings ++ [⟨letter, true⟩] })

end ReplicaRing
