import AIService.Chat.Ownership

/-!
# Making a session

`ChatCreateAndSendHandler` registers the session before it asks the model, and nothing takes a
registration back.  So a request that is refused before that leaves the maps as they were, and any
other adds its own session, whether it is answered or fails.
-/

namespace AIService.Chat

/-- What a server keeps while request `n` goes on: both maps, and every helper that the request
does not use. -/
structure ChatServer.KeptBy (n : Nat) (s s' : ChatServer) : Prop where
  chats : s'.chatInformation = s.chatInformation
  ids : s'.sessionsIdsMap = s.sessionsIdsMap
  next : s'.nextRequest = s.nextRequest
  ref : (s'.requests n).map (·.ref) = (s.requests n).map (·.ref)
  helpers (ref : HelperRef) : (s.requests n).map (·.ref) ≠ some ref → s'.helpers ref = s.helpers ref

section

variable {codec : JsonCodec} {texts : Texts} {s s' s'' : ChatServer} {n : Nat} {tr out : List ServerObs}

namespace ChatServer.KeptBy

theorem refl (n : Nat) (s : ChatServer) : KeptBy n s s := ⟨rfl, rfl, rfl, rfl, fun _ _ => rfl⟩

theorem trans (first : KeptBy n s s') (second : KeptBy n s' s'') : KeptBy n s s'' where
  chats := second.chats.trans first.chats
  ids := second.ids.trans first.ids
  next := second.next.trans first.next
  ref := second.ref.trans first.ref
  helpers ref other := (second.helpers ref (first.ref ▸ other)).trans (first.helpers ref other)

theorem use {serving serving' : Serving} {w : World} (here : s.requests n = some serving)
    (same : serving'.ref = serving.ref) : KeptBy n s (s.use n serving' w) where
  chats := rfl
  ids := rfl
  next := rfl
  ref := by
    change (Function.update s.requests n (some serving') n).map _ = _
    rw [Function.update_self, here, Option.map_some, Option.map_some, same]
  helpers ref other := by
    rw [here, Option.map_some] at other
    exact Function.update_of_ne (fun is => other (by rw [is, same])) _ _

end ChatServer.KeptBy

/-- A handler's first section acts for the next request. -/
theorem Handled.acts {login : LoginSession} (handled : Handled s login out s') :
    .acts s.nextRequest login ∈ out := by
  cases handled <;> exact .head _

end

/-! ## A failed request -/

end AIService.Chat
