import AIService.Chat.Ownership
import AIService.Data.Base64Texts
import AIService.Data.JsonText
import AIService.Image.Geometry
import AIService.Image.Png

/-!
# `AIUploadSendHandler`

A request that has its session is checked in full before the server looks for the recognizer of its
user, and the first request that gets there makes it.  What OpenCV and the network do with an image,
and the texts of the libraries' exceptions, come from outside.
-/

namespace AIService.Image

open Chat (LoginSession Reply Texts authorize textOr parseBody success)
open Jobs

/-! ## The prediction -/

structure Prediction where
  label : Bytes
  confidence : ℚ

/-- The sizes of a matrix, as an `int` each. -/
def Mat.sizes : Mat → Int × Int
  | .empty => (0, 0)
  | .other cols rows => (cols, rows)
  | .bgr cols rows _ _ => (cols, rows)

/-- OpenCV turns a JPEG by its orientation tag. -/
def Shape.Matches (shape : Shape) (img : Mat) : Prop :=
  img.sizes = ((shape.width.toNat : Int), (shape.height.toNat : Int)) ∨
    shape.jpeg = true ∧ img.sizes = ((shape.height.toNat : Int), (shape.width.toNat : Int))

instance (shape : Shape) (img : Mat) : Decidable (shape.Matches img) :=
  inferInstanceAs (Decidable (_ ∨ _ ∧ _))

/-- What `imdecode` makes of some bytes, if it does not throw, and what comes of a geometry. -/
structure Vision where
  imdecode : Bytes → Option Mat
  infer : Mat → Geometry → Except Exception Prediction
  /-- Behind the checks nothing throws an `Error`. -/
  plain : ∀ img g status message, infer img g ≠ .error (.error status message)

/-- `PredictBufferGuarded`. -/
def predictBufferGuarded (policy : Policy) (vision : Vision) (data : Bytes) :
    Except Exception Prediction :=
  match preflight policy data with
  | .error fault => .error fault.exception
  | .ok shape =>
      match vision.imdecode data with
      | none => .error .other
      | some .empty => .error (.runtimeError (bytes "Failed to decode image from buffer"))
      | some img =>
          if shape.Matches img then do
            let g ← predictMatGuarded policy img
            vision.infer img g
          else .error (.error 400 (bytes "Decoded image shape differs from header"))

/-! ## Reading a request -/

/-- The status the handler gives an exception. -/
def Jobs.Exception.status : Exception → Nat
  | .error 413 _ => 413
  | .error 503 _ => 503
  | _ => 400

/-- `e.what()`. -/
def Jobs.Exception.what (foreign : Bytes) : Exception → Bytes
  | .error _ message => message
  | .runtimeError message => message
  | .other => foreign

/-- The `catch` of the handler. -/
def thrown (foreign : Bytes) (e : Exception) : Reply :=
  { Chat.failure (e.what foreign) with status := e.status }

section reading

variable (codec : JsonCodec) (texts : Texts)

/-- `filename` and `image` of the body. -/
def uploadArguments (body : Bytes) : Except Reply (Bytes × Bytes) :=
  if body.isEmpty then .ok ([], [])
  else do
    let j ← parseBody codec texts body
    let filename ← textOr texts [] j (bytes "filename")
    let image ← textOr texts [] j (bytes "image")
    return (filename, image)

/-- The head of `AIUploadSendHandler::handle`. -/
def uploadRequest (login : LoginSession) (body : Bytes) : Except Reply (Int32 × Bytes × Bytes) := do
  let userId ← authorize texts login
  let (filename, image) ← uploadArguments codec texts body
  if image.isEmpty then .error (Chat.failure (bytes "No image data provided"))
  else return (userId, filename, image)

/-- From `imageBase64` to `imgData`, its header checked. -/
def decodeImage (policy : Policy) (outOfRange image : Bytes) : Except Reply Bytes :=
  if (policy.encoded.val + 2) / 3 * 4 < image.length then
    .error (thrown [] (.error 413 (bytes "Encoded image exceeds resource budget")))
  else
    match Base64.base64Decode image false with
    | .error e => .error (Chat.failure (e.what outOfRange))
    | .ok data =>
        match preflight policy data with
        | .error fault => .error (thrown [] fault.exception)
        | .ok _ => .ok data

end reading

/-! ## The server -/

/-- An `ImageRecognizer` object: when, and for which user, it was made. -/
structure RecognizerRef where
  birth : Nat
  user : Int
deriving DecidableEq, Repr

/-- A request whose image is checked, and its recognizer once it has it. -/
structure Upload where
  userId : Int
  filename : Bytes
  imgData : Bytes
  recognizer : Option RecognizerRef := none

/-- `policy` is the static of `GetPolicy`. -/
structure Uploads where
  policy : Option Policy := none
  imageRecognizerMap : SortedMap Int RecognizerRef := .empty
  births : Nat := 0
  requests : Nat → Option Upload := fun _ => none
  nextRequest : Nat := 0

inductive UploadObs
  | asked (n : Nat) (login : LoginSession) (body : Bytes)
  | built (n : Nat) (ref : RecognizerRef)
  | predicted (n : Nat) (ref : RecognizerRef) (imgData : Bytes)
  | replied (n : Nat) (reply : Reply)
  /-- The handler throws, and `handleRequest` answers with a 500. -/
  | threw (n : Nat)

/-- The `dump(4)` of the `catch` throws too, if the text of the exception is not UTF-8. -/
def answer (codec : JsonCodec) (n : Nat) (reply : Reply) : UploadObs :=
  if (codec.dump reply.body).isSome then .replied n reply else .threw n

namespace Uploads

variable (s : Uploads)

/-- `GetPolicy()`: a failed initialization is tried again by the next call. -/
def getPolicy (getenv : Bytes → Option Bytes) : Except Bytes Policy :=
  match s.policy with
  | some policy => .ok policy
  | none => Image.getPolicy getenv

/-- Request `n` goes on as `upload`, or not at all. -/
def put (n : Nat) (upload : Option Upload) : Uploads :=
  { s with requests := Function.update s.requests n upload }

/-- A new request. -/
def enter (upload : Option Upload) : Uploads :=
  { s.put s.nextRequest upload with nextRequest := s.nextRequest + 1 }

/-- `AIUploadSendHandler::handle`, up to the lock. -/
def handle (codec : JsonCodec) (texts : Texts) (outOfRange : Bytes) (getenv : Bytes → Option Bytes)
    (login : LoginSession) (body : Bytes) : List UploadObs × Uploads :=
  let refuse (s : Uploads) (reply : Reply) : List UploadObs × Uploads :=
    ([.asked s.nextRequest login body, answer codec s.nextRequest reply], s.enter none)
  match uploadRequest codec texts login body with
  | .error reply => refuse s reply
  | .ok (userId, filename, image) =>
      match s.getPolicy getenv with
      | .error what => refuse s (Chat.failure what)
      | .ok policy =>
          let s := { s with policy := some policy }
          match decodeImage policy outOfRange image with
          | .error reply => refuse s reply
          | .ok imgData => ([.asked s.nextRequest login body],
              s.enter (some ⟨userId.toInt, filename, imgData, none⟩))

/-- `emplace`, once the constructor is through. -/
def build (n : Nat) (upload : Upload) : List UploadObs × Uploads :=
  let ref : RecognizerRef := ⟨s.births, upload.userId⟩
  ([.built n ref], { s.put n (some { upload with recognizer := some ref }) with
    imageRecognizerMap := s.imageRecognizerMap.insert upload.userId ref
    births := s.births + 1 })

end Uploads

def uploadSuccess (filename : Bytes) (prediction : Prediction) : Reply :=
  ⟨200, false, .object [(bytes "success", .str (bytes "ok")), (bytes "filename", .str filename),
    (bytes "class_name", .str prediction.label), (bytes "confidence", .float prediction.confidence)]⟩

/-- One step of one request. -/
inductive UploadStep (codec : JsonCodec) : Uploads → List UploadObs → Uploads → Prop
  | handle {s : Uploads} (texts : Texts) (outOfRange : Bytes) (getenv : Bytes → Option Bytes)
      (login : LoginSession) (body : Bytes) :
    UploadStep codec s (s.handle codec texts outOfRange getenv login body).1
      (s.handle codec texts outOfRange getenv login body).2
  | find {s : Uploads} {n : Nat} {upload : Upload} {ref : RecognizerRef} :
    s.requests n = some upload → upload.recognizer = none →
    s.imageRecognizerMap.find? upload.userId = some ref →
    UploadStep codec s [] (s.put n (some { upload with recognizer := some ref }))
  | build {s : Uploads} {n : Nat} {upload : Upload} :
    s.requests n = some upload → upload.recognizer = none →
    s.imageRecognizerMap.find? upload.userId = none →
    UploadStep codec s (s.build n upload).1 (s.build n upload).2
  /-- The constructor of the recognizer throws. -/
  | buildFails {s : Uploads} {n : Nat} {upload : Upload} (what : Bytes) :
    s.requests n = some upload → upload.recognizer = none →
    s.imageRecognizerMap.find? upload.userId = none →
    UploadStep codec s [answer codec n (Chat.failure what)] (s.put n none)
  /-- The permit is refused. -/
  | busy {s : Uploads} {n : Nat} {upload : Upload} {ref : RecognizerRef} :
    s.requests n = some upload → upload.recognizer = some ref →
    UploadStep codec s [answer codec n (thrown [] .busy)] (s.put n none)
  | predict {s : Uploads} {n : Nat} {upload : Upload} {ref : RecognizerRef} {policy : Policy}
      {prediction : Prediction} (vision : Vision) :
    s.requests n = some upload → upload.recognizer = some ref → s.policy = some policy →
    predictBufferGuarded policy vision upload.imgData = .ok prediction →
    (codec.dump (uploadSuccess upload.filename prediction).body).isSome = true →
    UploadStep codec s
      [.predicted n ref upload.imgData, .replied n (uploadSuccess upload.filename prediction)]
      (s.put n none)
  | predictFails {s : Uploads} {n : Nat} {upload : Upload} {ref : RecognizerRef} {policy : Policy}
      {e : Exception} (vision : Vision) (foreign : Bytes) :
    s.requests n = some upload → upload.recognizer = some ref → s.policy = some policy →
    predictBufferGuarded policy vision upload.imgData = .error e →
    UploadStep codec s [.predicted n ref upload.imgData, answer codec n (thrown foreign e)]
      (s.put n none)
  /-- A success whose label is not UTF-8 is caught as an exception. -/
  | unwritable {s : Uploads} {n : Nat} {upload : Upload} {ref : RecognizerRef} {policy : Policy}
      {prediction : Prediction} (vision : Vision) (what : Bytes) :
    s.requests n = some upload → upload.recognizer = some ref → s.policy = some policy →
    predictBufferGuarded policy vision upload.imgData = .ok prediction →
    codec.dump (uploadSuccess upload.filename prediction).body = none →
    UploadStep codec s [.predicted n ref upload.imgData, answer codec n (Chat.failure what)]
      (s.put n none)

/-! ## The checks -/

theorem returns_preflight (policy : Policy) (data : Bytes) :
    Returns (Good policy) (preflight policy data) := by
  unfold preflight
  apply returns_checkEncoded.bind
  intro _ small
  apply (returns_startsWith _).bind
  intro png _
  apply Returns.ite
  · exact fun _ => returns_pngPreflight small
  · intro _
    apply (returns_startsWith _).bind
    intro jpeg _
    exact .ite (fun _ => returns_jpegMarkers small (by omega) nofun) fun _ => returns_invalid _

theorem Fits.swap {policy : Policy} {width height : Nat} (fits : Fits policy width height) :
    Fits policy height width := by
  refine ⟨fits.tall, fits.wide, ?_, ?_⟩
  · rw [Nat.mul_comm]
    exact fits.pixels
  · rw [Nat.mul_right_comm]
    exact fits.bgr

/-- A matrix with the sizes of a checked header is within the budget. -/
theorem Shape.Matches.fits {policy : Policy} {shape : Shape} {cols rows : Nat}
    {positive : 0 < cols ∧ 0 < rows} {ints : cols ≤ intMax ∧ rows ≤ intMax} (good : Good policy shape)
    (sizes : shape.Matches (.bgr cols rows positive ints)) : Fits policy cols rows := by
  rcases sizes with same | ⟨-, same⟩
  · obtain ⟨wide, tall⟩ := Prod.mk.inj same
    rw [Int.ofNat_inj.mp wide, Int.ofNat_inj.mp tall]
    exact good
  · obtain ⟨wide, tall⟩ := Prod.mk.inj same
    rw [Int.ofNat_inj.mp wide, Int.ofNat_inj.mp tall]
    exact good.swap

/-- Behind the check of the handler a prediction throws no other `Error` than for a shape. -/
theorem status_of_prediction {policy : Policy} {vision : Vision} {data : Bytes} {shape : Shape}
    {e : Exception} (checked : preflight policy data = .ok shape)
    (failed : predictBufferGuarded policy vision data = .error e) : e.status = 400 := by
  have good := returns_preflight policy data
  rw [predictBufferGuarded, checked] at failed
  rw [checked] at good
  dsimp only at failed
  split at failed
  · cases failed
    rfl
  · cases failed
    rfl
  · next img nonempty decoded =>
      split at failed
      · next sizes =>
          cases img with
          | empty => exact (nonempty rfl).elim
          | other =>
              cases failed
              rfl
          | bgr cols rows positive ints =>
              rw [predictMatGuarded, checkShape_of_fits ints (sizes.fits good)] at failed
              rcases preprocess_cases positive ints with ⟨g, ran, -⟩ | ⟨⟨message, excess⟩, -⟩
              · dsimp only at failed
                rw [ran] at failed
                cases e with
                | error status message =>
                    exact absurd failed (vision.plain _ g status message)
                | runtimeError => rfl
                | other => rfl
              · dsimp only at failed
                rw [excess] at failed
                cases failed
                rfl
      · cases failed
        rfl

/-- The decoder and the header check took the text of an image for `data`. -/
structure Decodes (policy : Policy) (image data : Bytes) : Prop where
  nonempty : image ≠ []
  within : image.length ≤ (policy.encoded.val + 2) / 3 * 4
  decoded : Base64.base64Decode image false = .ok data
  shape : ∃ shape, preflight policy data = .ok shape

theorem decodeImage_ok_iff {policy : Policy} {outOfRange image data : Bytes} :
    decodeImage policy outOfRange image = .ok data ∧ image ≠ [] ↔ Decodes policy image data := by
  constructor
  · rintro ⟨passed, nonempty⟩
    unfold decodeImage at passed
    split at passed
    · cases passed
    · next within =>
        split at passed
        · cases passed
        · next data' decoded =>
            split at passed
            · cases passed
            · next shape checked =>
                cases passed
                exact ⟨nonempty, Nat.le_of_not_lt within, decoded, shape, checked⟩
  · rintro ⟨nonempty, within, decoded, shape, checked⟩
    refine ⟨?_, nonempty⟩
    rw [decodeImage, if_neg (Nat.not_lt.mpr within), decoded]
    dsimp only
    rw [checked]

/-- The guard on the text refuses no file that the one on its bytes takes. -/
theorem decodeImage_encodeGroups (policy : Policy) (outOfRange file : Bytes) :
    decodeImage policy outOfRange (Base64.encodeGroups false file) =
      ((preflight policy file).map fun _ => file).mapError fun fault => thrown [] fault.exception := by
  rw [decodeImage, Base64.length_encodeGroups, Base64.base64Decode_encodeGroups]
  split
  · next long =>
      have large : policy.encoded.val < file.length := by omega
      rw [preflight, checkEncoded, if_pos large]
      rfl
  · dsimp only
    cases preflight policy file with
    | error fault => rfl
    | ok shape => rfl

/-- A reply that ends a request before the lock. -/
structure Refusal (login : LoginSession) (reply : Reply) : Prop where
  close : reply.close = true
  status : reply.status = 401 ∧ login.isLoggedIn ≠ bytes "true" ∨
    (reply.status = 400 ∨ reply.status = 413) ∧ login.isLoggedIn = bytes "true"

theorem decodeImage_error {policy : Policy} {outOfRange image : Bytes} {reply : Reply}
    (refused : decodeImage policy outOfRange image = .error reply) :
    reply.close = true ∧ (reply.status = 400 ∨ reply.status = 413) := by
  unfold decodeImage at refused
  split at refused
  · cases refused
    exact ⟨rfl, .inr rfl⟩
  · split at refused
    · cases refused
      exact ⟨rfl, .inl rfl⟩
    · next data decoded =>
        have returns := returns_preflight policy data
        split at refused
        · next fault failed =>
            rw [failed] at returns
            cases refused
            refine ⟨rfl, ?_⟩
            cases fault with
            | error status message =>
                rcases returns with rfl | rfl
                · exact .inl rfl
                · exact .inr rfl
            | outOfBounds => exact returns.elim
            | wrapped => exact returns.elim
            | unfinished => exact returns.elim
        · cases refused

section reading

variable {codec : JsonCodec} {texts : Texts} {login : LoginSession} {body : Bytes}

theorem parseBody_error {reply : Reply} (refused : parseBody codec texts body = .error reply) :
    reply = Chat.failure texts.json := by
  unfold parseBody at refused
  split at refused
  · cases refused
  · exact (Except.error.inj refused).symm

theorem textOr_error {default key : Bytes} {j : Json} {reply : Reply}
    (refused : textOr texts default j key = .error reply) : reply = Chat.failure texts.json := by
  unfold textOr at refused
  split at refused
  · cases refused
  · cases refused
  · exact (Except.error.inj refused).symm

theorem uploadArguments_error {reply : Reply}
    (refused : uploadArguments codec texts body = .error reply) : reply = Chat.failure texts.json := by
  unfold uploadArguments at refused
  split at refused
  · cases refused
  · rcases bind_eq_error refused with unparsed | ⟨j, -, refused⟩
    · exact parseBody_error unparsed
    · rcases bind_eq_error refused with unnamed | ⟨filename, -, refused⟩
      · exact textOr_error unnamed
      · rcases bind_eq_error refused with noImage | ⟨image, -, refused⟩
        · exact textOr_error noImage
        · cases refused

/-- The texts of exceptions do not matter to what is read. -/
theorem uploadArguments_texts {arguments : Bytes × Bytes}
    (read : uploadArguments codec texts body = .ok arguments) (texts' : Texts) :
    uploadArguments codec texts' body = .ok arguments := by
  have same {default key text : Bytes} {j : Json} (read : textOr texts default j key = .ok text) :
      textOr texts' default j key = .ok text := by
    unfold textOr at read ⊢
    split at read
    · exact read
    · exact read
    · cases read
  unfold uploadArguments at read ⊢
  split at read
  · next empty => rw [if_pos empty, read]
  · next some_ =>
      rw [if_neg some_]
      obtain ⟨j, parsed, read⟩ := bind_eq_ok read
      obtain ⟨filename, named, read⟩ := bind_eq_ok read
      obtain ⟨image, found, read⟩ := bind_eq_ok read
      have parsed' : parseBody codec texts' body = .ok j := by
        unfold parseBody at parsed ⊢
        split at parsed
        · exact parsed
        · cases parsed
      rw [parsed']
      change textOr texts' [] j (bytes "filename") >>= _ = _
      rw [same named]
      change textOr texts' [] j (bytes "image") >>= _ = _
      rw [same found]
      exact read

theorem uploadRequest_ok {userId : Int32} {filename image : Bytes}
    (ran : uploadRequest codec texts login body = .ok (userId, filename, image)) :
    login.user? = some userId.toInt ∧ uploadArguments codec texts body = .ok (filename, image) ∧
      image ≠ [] := by
  obtain ⟨userId', authorized, ran⟩ := bind_eq_ok ran
  obtain ⟨⟨filename', image'⟩, read, ran⟩ := bind_eq_ok ran
  dsimp only at ran
  split at ran
  · cases ran
  · next nonempty =>
      cases ran
      exact ⟨Chat.authorize_user authorized, read, fun empty => nonempty (List.isEmpty_iff.mpr empty)⟩

theorem uploadRequest_error {reply : Reply}
    (refused : uploadRequest codec texts login body = .error reply) : Refusal login reply := by
  rcases bind_eq_error refused with unauthorized | ⟨userId, authorized, refused⟩
  · unfold authorize at unauthorized
    split at unauthorized
    · next loggedOut =>
        cases unauthorized
        exact ⟨rfl, .inl ⟨rfl, loggedOut⟩⟩
    · next loggedIn =>
        split at unauthorized
        · cases unauthorized
          exact ⟨rfl, .inr ⟨.inl rfl, not_not.mp loggedIn⟩⟩
        · cases unauthorized
  · have loggedIn : login.isLoggedIn = bytes "true" := by
      by_contra loggedOut
      rw [authorize, if_pos loggedOut] at authorized
      cases authorized
    rcases bind_eq_error refused with unread | ⟨⟨filename, image⟩, -, refused⟩
    · cases uploadArguments_error unread
      exact ⟨rfl, .inr ⟨.inl rfl, loggedIn⟩⟩
    · dsimp only at refused
      split at refused
      · cases refused
        exact ⟨rfl, .inr ⟨.inl rfl, loggedIn⟩⟩
      · cases refused

end reading

/-! ## Runs -/

def UploadObs.request : UploadObs → Nat
  | .asked n _ _ => n
  | .built n _ => n
  | .predicted n _ _ => n
  | .replied n _ => n
  | .threw n => n

@[simp] theorem UploadObs.request_asked (n : Nat) (login : LoginSession) (body : Bytes) :
    (UploadObs.asked n login body).request = n := rfl

@[simp] theorem UploadObs.request_predicted (n : Nat) (ref : RecognizerRef) (imgData : Bytes) :
    (UploadObs.predicted n ref imgData).request = n := rfl

@[simp] theorem request_answer (codec : JsonCodec) (n : Nat) (reply : Reply) :
    (answer codec n reply).request = n := by
  unfold answer
  split <;> rfl

/-- A recognizer is made for `u`. -/
def UploadObs.builds (u : Int) : UploadObs → Bool
  | .built _ ref => ref.user = u
  | _ => false

@[simp] theorem UploadObs.builds_asked (n : Nat) (login : LoginSession) (body : Bytes) (u : Int) :
    (UploadObs.asked n login body).builds u = false := rfl

@[simp] theorem UploadObs.builds_predicted (n : Nat) (ref : RecognizerRef) (imgData : Bytes) (u : Int) :
    (UploadObs.predicted n ref imgData).builds u = false := rfl

@[simp] theorem builds_answer (codec : JsonCodec) (n : Nat) (reply : Reply) (u : Int) :
    (answer codec n reply).builds u = false := by
  unfold answer
  split <;> rfl

section courses

variable (codec : JsonCodec)

/-- The request is one of a user who is logged in, for an image that passed the checks. -/
structure Accepted (policy : Option Policy) (login : LoginSession) (body : Bytes) (upload : Upload) :
    Prop where
  user : login.user? = some upload.userId
  image : ∃ p image, policy = some p ∧
    (∀ texts, uploadArguments codec texts body = .ok (upload.filename, image)) ∧
      Decodes p image upload.imgData

/-- The recognizer of a request is its user's, made by it or found. -/
structure Equipped (recognizers : SortedMap Int RecognizerRef) (n : Nat) (upload : Upload)
    (ref : RecognizerRef) (made : List UploadObs) : Prop where
  has : upload.recognizer = some ref
  shared : recognizers.find? upload.userId = some ref
  made : made = [] ∨ made = [.built n ref]

/-- What request `n` has shown, and what it is now. -/
inductive Course (policy : Option Policy) (recognizers : SortedMap Int RecognizerRef) (n : Nat) :
    List UploadObs → Option Upload → Prop
  | refused {login : LoginSession} {body : Bytes} {reply : Reply} : Refusal login reply →
    Course policy recognizers n [.asked n login body, answer codec n reply] none
  | checked {login : LoginSession} {body : Bytes} {upload : Upload} :
    Accepted codec policy login body upload → upload.recognizer = none →
    Course policy recognizers n [.asked n login body] (some upload)
  | unbuilt {login : LoginSession} {body what : Bytes} {upload : Upload} :
    Accepted codec policy login body upload →
    Course policy recognizers n [.asked n login body, answer codec n (Chat.failure what)] none
  | equipped {login : LoginSession} {body : Bytes} {upload : Upload} {ref : RecognizerRef}
      {made : List UploadObs} : Accepted codec policy login body upload →
    Equipped recognizers n upload ref made →
    Course policy recognizers n (.asked n login body :: made) (some upload)
  | busy {login : LoginSession} {body : Bytes} {upload : Upload} {ref : RecognizerRef}
      {made : List UploadObs} : Accepted codec policy login body upload →
    Equipped recognizers n upload ref made →
    Course policy recognizers n (.asked n login body :: (made ++ [answer codec n (thrown [] .busy)])) none
  | predicted {login : LoginSession} {body : Bytes} {upload : Upload} {ref : RecognizerRef}
      {made : List UploadObs} {reply : Reply} : Accepted codec policy login body upload →
    Equipped recognizers n upload ref made →
    reply.status = 200 ∧ reply.close = false ∧ (codec.dump reply.body).isSome = true ∨
      reply.status = 400 ∧ reply.close = true →
    Course policy recognizers n
      (.asked n login body :: (made ++ [.predicted n ref upload.imgData, answer codec n reply])) none

end courses

section runs

variable {codec : JsonCodec} {policy policy' : Option Policy} {n : Nat}
  {recognizers recognizers' : SortedMap Int RecognizerRef} {login : LoginSession} {body : Bytes}
  {upload : Upload} {s s' : Uploads} {tr out : List UploadObs}

theorem Accepted.mono (later : ∀ p, policy = some p → policy' = some p)
    (accepted : Accepted codec policy login body upload) :
    Accepted codec policy' login body upload := by
  obtain ⟨p, image, read, arguments, decodes⟩ := accepted.image
  exact ⟨accepted.user, p, image, later p read, arguments, decodes⟩

theorem Equipped.mono {ref : RecognizerRef} {made : List UploadObs}
    (later : ∀ u ref, recognizers.find? u = some ref → recognizers'.find? u = some ref)
    (equipped : Equipped recognizers n upload ref made) : Equipped recognizers' n upload ref made :=
  ⟨equipped.has, later _ _ equipped.shared, equipped.made⟩

/-- The policy and the recognizers stay once they are there. -/
theorem Course.mono {shown : List UploadObs} {now : Option Upload}
    (policies : ∀ p, policy = some p → policy' = some p)
    (maps : ∀ u ref, recognizers.find? u = some ref → recognizers'.find? u = some ref)
    (course : Course codec policy recognizers n shown now) :
    Course codec policy' recognizers' n shown now := by
  cases course with
  | refused refusal => exact .refused refusal
  | checked accepted fresh => exact .checked (accepted.mono policies) fresh
  | unbuilt accepted => exact .unbuilt (accepted.mono policies)
  | equipped accepted equipped => exact .equipped (accepted.mono policies) (equipped.mono maps)
  | busy accepted equipped => exact .busy (accepted.mono policies) (equipped.mono maps)
  | predicted accepted equipped status =>
      exact .predicted (accepted.mono policies) (equipped.mono maps) status

theorem Course.of_fresh {shown : List UploadObs} (fresh : upload.recognizer = none)
    (course : Course codec policy recognizers n shown (some upload)) :
    ∃ login body, shown = [.asked n login body] ∧ Accepted codec policy login body upload := by
  cases course with
  | checked accepted _ => exact ⟨_, _, rfl, accepted⟩
  | equipped _ equipped =>
      have has := equipped.has
      rw [fresh] at has
      cases has

theorem Course.of_equipped {shown : List UploadObs} {ref : RecognizerRef}
    (has : upload.recognizer = some ref)
    (course : Course codec policy recognizers n shown (some upload)) :
    ∃ login body made, shown = .asked n login body :: made ∧
      Accepted codec policy login body upload ∧ Equipped recognizers n upload ref made := by
  cases course with
  | checked _ fresh =>
      rw [fresh] at has
      cases has
  | equipped accepted equipped =>
      have same := equipped.has
      rw [has] at same
      cases same
      exact ⟨_, _, _, rfl, accepted, equipped⟩

variable (codec) in
/-- What a call of the handler does up to the lock. -/
theorem handle_cases (s : Uploads) (texts : Texts) (outOfRange : Bytes) (getenv : Bytes → Option Bytes)
    (login : LoginSession) (body : Bytes) :
    ∃ policy, (policy = s.policy ∨ s.policy = none) ∧
      ((∃ reply, Refusal login reply ∧ s.handle codec texts outOfRange getenv login body =
          ([.asked s.nextRequest login body, answer codec s.nextRequest reply],
            { s with policy := policy }.enter none)) ∨
        ∃ upload, Accepted codec policy login body upload ∧ upload.recognizer = none ∧
          s.handle codec texts outOfRange getenv login body =
            ([.asked s.nextRequest login body], { s with policy := policy }.enter (some upload))) := by
  unfold Uploads.handle
  dsimp only
  split
  · next reply refused => exact ⟨s.policy, .inl rfl, .inl ⟨reply, uploadRequest_error refused, rfl⟩⟩
  · next userId filename image ran =>
      obtain ⟨user, arguments, nonempty⟩ := uploadRequest_ok ran
      have loggedIn : login.isLoggedIn = bytes "true" := by
        by_contra loggedOut
        rw [LoginSession.user?, if_neg loggedOut] at user
        cases user
      split
      · exact ⟨s.policy, .inl rfl, .inl ⟨_, ⟨rfl, .inr ⟨.inl rfl, loggedIn⟩⟩, rfl⟩⟩
      · next p read =>
          have known : some p = s.policy ∨ s.policy = none := by
            unfold Uploads.getPolicy at read
            split at read
            · next p' there =>
                cases read
                exact .inl there.symm
            · next none_ => exact .inr none_
          refine ⟨some p, known, ?_⟩
          split
          · next reply refused =>
              obtain ⟨close, status⟩ := decodeImage_error refused
              exact .inl ⟨reply, ⟨close, .inr ⟨status, loggedIn⟩⟩, rfl⟩
          · next imgData decoded =>
              exact .inr ⟨⟨userId.toInt, filename, imgData, none⟩, ⟨user, p, image, rfl, uploadArguments_texts arguments,
                decodeImage_ok_iff.mp ⟨decoded, nonempty⟩⟩, rfl, rfl⟩

/-- What request `n` has shown. -/
def shownBy (n : Nat) (tr : List UploadObs) : List UploadObs := tr.filter fun o => o.request = n

theorem shownBy_append (n : Nat) (tr out : List UploadObs) :
    shownBy n (tr ++ out) = shownBy n tr ++ shownBy n out := List.filter_append ..

theorem shownBy_own (own : ∀ o ∈ out, o.request = n) : shownBy n out = out :=
  List.filter_eq_self.mpr fun o member => decide_eq_true (own o member)

theorem shownBy_other {m : Nat} (ne : m ≠ n) (own : ∀ o ∈ out, o.request = n) : shownBy m out = [] :=
  List.filter_eq_nil_iff.mpr fun o member same => ne ((of_decide_eq_true same).symm.trans (own o member))

variable (codec) in
structure Uploads.Inv (tr : List UploadObs) (s : Uploads) : Prop where
  courses : ∀ n < s.nextRequest,
    Course codec s.policy s.imageRecognizerMap n (shownBy n tr) (s.requests n)
  later : ∀ n, s.nextRequest ≤ n → shownBy n tr = [] ∧ s.requests n = none
  owners : ∀ u ref, s.imageRecognizerMap.find? u = some ref → ref.user = u
  builds : ∀ u, tr.countP (·.builds u) = if (s.imageRecognizerMap.find? u).isSome then 1 else 0

theorem Uploads.Inv.initial : Uploads.Inv codec [] {} where
  courses _ before := absurd before (Nat.not_lt_zero _)
  later _ _ := ⟨rfl, rfl⟩
  owners _ _ found := by cases found
  builds _ := rfl

theorem Uploads.Inv.lt (inv : s.Inv codec tr) (running : s.requests n = some upload) :
    n < s.nextRequest := by
  by_contra beyond
  rw [(inv.later n (Nat.le_of_not_lt beyond)).2] at running
  cases running

/-- A new request. -/
theorem Uploads.Inv.enter (inv : s.Inv codec tr) {now : Option Upload}
    (known : policy = s.policy ∨ s.policy = none) (own : ∀ o ∈ out, o.request = s.nextRequest)
    (quiet : ∀ u, out.countP (·.builds u) = 0)
    (course : Course codec policy s.imageRecognizerMap s.nextRequest out now) :
    ({ s with policy := policy }.enter now).Inv codec (tr ++ out) where
  courses m before := by
    rw [shownBy_append]
    change Course codec policy s.imageRecognizerMap m _
      (Function.update s.requests s.nextRequest now m)
    rcases Nat.lt_succ_iff_lt_or_eq.mp before with earlier | rfl
    · have ne := Nat.ne_of_lt earlier
      rw [shownBy_other ne own, List.append_nil, Function.update_of_ne ne]
      refine (inv.courses m earlier).mono (fun p read => ?_) fun _ _ found => found
      rcases known with same | unread
      · rw [same, read]
      · rw [unread] at read
        cases read
    · rw [(inv.later s.nextRequest (Nat.le_refl _)).1, shownBy_own own, Function.update_self]
      exact course
  later m beyond := by
    have ne : m ≠ s.nextRequest := Nat.ne_of_gt beyond
    obtain ⟨unseen, absent⟩ := inv.later m (Nat.le_of_succ_le beyond)
    refine ⟨?_, (Function.update_of_ne ne _ _).trans absent⟩
    rw [shownBy_append, unseen, shownBy_other ne own]
    rfl
  owners := inv.owners
  builds u := by
    rw [List.countP_append, quiet u]
    exact inv.builds u

/-- A request moves, and leaves the recognizers. -/
theorem Uploads.Inv.put (inv : s.Inv codec tr) {now : Option Upload}
    (running : s.requests n = some upload) (own : ∀ o ∈ out, o.request = n)
    (quiet : ∀ u, out.countP (·.builds u) = 0)
    (course : Course codec s.policy s.imageRecognizerMap n (shownBy n tr ++ out) now) :
    (s.put n now).Inv codec (tr ++ out) where
  courses m before := by
    rw [shownBy_append]
    change Course codec s.policy s.imageRecognizerMap m _ (Function.update s.requests n now m)
    by_cases same : m = n
    · rw [same, shownBy_own own, Function.update_self]
      exact course
    · rw [shownBy_other same own, List.append_nil, Function.update_of_ne same]
      exact inv.courses m before
  later m beyond := by
    have ne : m ≠ n := Nat.ne_of_gt (Nat.lt_of_lt_of_le (inv.lt running) beyond)
    obtain ⟨unseen, absent⟩ := inv.later m beyond
    refine ⟨?_, (Function.update_of_ne ne _ _).trans absent⟩
    rw [shownBy_append, unseen, shownBy_other ne own]
    rfl
  owners := inv.owners
  builds u := by
    rw [List.countP_append, quiet u]
    exact inv.builds u

theorem Uploads.Inv.build (inv : s.Inv codec tr) (running : s.requests n = some upload)
    (fresh : upload.recognizer = none) (absent : s.imageRecognizerMap.find? upload.userId = none) :
    (s.build n upload).2.Inv codec (tr ++ (s.build n upload).1) := by
  have maps : ∀ u ref, s.imageRecognizerMap.find? u = some ref →
      (s.build n upload).2.imageRecognizerMap.find? u = some ref := by
    intro u ref found
    have ne : upload.userId ≠ u := by
      rintro rfl
      rw [absent] at found
      cases found
    exact (SortedMap.find?_insert_of_ne _ ne _).trans found
  have own : ∀ o ∈ (s.build n upload).1, o.request = n := by
    intro o member
    cases List.mem_singleton.mp member
    rfl
  refine ⟨fun m before => ?_, fun m beyond => ?_, fun u ref found => ?_, fun u => ?_⟩
  · rw [shownBy_append]
    change Course codec s.policy _ m _ (Function.update s.requests n _ m)
    by_cases same : m = n
    · subst same
      rw [shownBy_own own, Function.update_self]
      have course := inv.courses m (inv.lt running)
      rw [running] at course
      obtain ⟨login, body, shown, accepted⟩ := course.of_fresh fresh
      rw [shown]
      refine .equipped ⟨accepted.user, accepted.image⟩ ⟨rfl, SortedMap.find?_insert_self _ _ _, .inr rfl⟩
    · rw [shownBy_other same own, List.append_nil, Function.update_of_ne same]
      exact (inv.courses m before).mono (fun _ read => read) maps
  · have ne : m ≠ n := Nat.ne_of_gt (Nat.lt_of_lt_of_le (inv.lt running) beyond)
    obtain ⟨unseen, none_⟩ := inv.later m beyond
    refine ⟨?_, (Function.update_of_ne ne _ _).trans none_⟩
    rw [shownBy_append, unseen, shownBy_other ne own]
    rfl
  · change (s.imageRecognizerMap.insert upload.userId _).find? u = some ref at found
    rw [SortedMap.find?_insert] at found
    split at found
    · next same =>
        cases found
        exact same
    · exact inv.owners u ref found
  · have one : (s.build n upload).1.countP (·.builds u) = if upload.userId = u then 1 else 0 := by
      refine (List.countP_singleton ..).trans ?_
      exact if_congr decide_eq_true_iff rfl rfl
    change _ = if ((s.imageRecognizerMap.insert upload.userId _).find? u).isSome then 1 else 0
    rw [List.countP_append, inv.builds u, one, SortedMap.find?_insert]
    by_cases same : upload.userId = u
    · rw [if_pos same, if_pos same, ← same, absent]
      rfl
    · rw [if_neg same, if_neg same, Nat.add_zero]

theorem Uploads.Inv.step (inv : s.Inv codec tr) (step : UploadStep codec s out s') :
    s'.Inv codec (tr ++ out) := by
  have shown : ∀ {n : Nat} {upload : Upload}, s.requests n = some upload →
      Course codec s.policy s.imageRecognizerMap n (shownBy n tr) (some upload) := by
    intro n upload running
    rw [← running]
    exact inv.courses n (inv.lt running)
  cases step with
  | handle texts outOfRange getenv login body =>
      obtain ⟨policy, known, ⟨reply, refusal, handled⟩ | ⟨upload, accepted, fresh, handled⟩⟩ :=
        handle_cases codec s texts outOfRange getenv login body
      · rw [handled]
        exact inv.enter known (by simp) (by simp) (.refused refusal)
      · rw [handled]
        exact inv.enter known (by simp) (by simp) (.checked accepted fresh)
  | @find n upload ref running fresh found =>
      obtain ⟨login, body, own, accepted⟩ := (shown running).of_fresh fresh
      apply inv.put running (List.forall_mem_nil _) (fun _ => rfl)
      rw [own]
      have equipped : Equipped s.imageRecognizerMap n { upload with recognizer := some ref } ref [] :=
        ⟨rfl, found, .inl rfl⟩
      exact .equipped ⟨accepted.user, accepted.image⟩ equipped
  | build running fresh absent => exact inv.build running fresh absent
  | buildFails what running fresh absent =>
      obtain ⟨login, body, own, accepted⟩ := (shown running).of_fresh fresh
      apply inv.put running (by simp) (by simp)
      rw [own]
      exact .unbuilt accepted
  | busy running has =>
      obtain ⟨login, body, made, own, accepted, equipped⟩ := (shown running).of_equipped has
      apply inv.put running (by simp) (by simp)
      rw [own]
      exact .busy accepted equipped
  | @predict n upload ref policy prediction vision running has read ran written =>
      obtain ⟨login, body, made, own, accepted, equipped⟩ := (shown running).of_equipped has
      have told : answer codec n (uploadSuccess upload.filename prediction) =
          .replied n (uploadSuccess upload.filename prediction) := if_pos written
      rw [← told]
      apply inv.put running (by simp) (by simp)
      rw [own]
      exact .predicted accepted equipped (.inl ⟨rfl, rfl, written⟩)
  | predictFails vision foreign running has read failed =>
      obtain ⟨login, body, made, own, accepted, equipped⟩ := (shown running).of_equipped has
      apply inv.put running (by simp) (by simp)
      rw [own]
      obtain ⟨p, image, same, -, decodes⟩ := accepted.image
      obtain ⟨shape, checked⟩ := decodes.shape
      rw [read] at same
      cases same
      exact .predicted accepted equipped (.inr ⟨status_of_prediction checked failed, rfl⟩)
  | unwritable vision what running has read ran unwritten =>
      obtain ⟨login, body, made, own, accepted, equipped⟩ := (shown running).of_equipped has
      apply inv.put running (by simp) (by simp)
      rw [own]
      exact .predicted accepted equipped (.inr ⟨rfl, rfl⟩)

/-- Over every run each request takes one of the courses above: a model sees only bytes that the
header check took, decoded from the text of that request and for its user, and by then the request
can no longer be too large.  Where the text of an exception cannot be written, the reply that would
quote it is a 500 instead.  A user's recognizer is made at most once, and used for no one else. -/
theorem uploads_run (run : Run (UploadStep codec) {} tr s) :
    (∀ n < s.nextRequest,
      Course codec s.policy s.imageRecognizerMap n (shownBy n tr) (s.requests n)) ∧
    (∀ n, s.nextRequest ≤ n → shownBy n tr = []) ∧
    (∀ u ref, s.imageRecognizerMap.find? u = some ref → ref.user = u) ∧
    ∀ u, tr.countP (·.builds u) ≤ 1 := by
  have inv : s.Inv codec tr :=
    run.invariant (I := fun s tr => s.Inv codec tr) .initial Uploads.Inv.step
  refine ⟨inv.courses, fun n beyond => (inv.later n beyond).1, inv.owners, fun u => ?_⟩
  rw [inv.builds u]
  split
  · exact Nat.le_refl 1
  · exact Nat.zero_le 1

/-- A user who is logged in. -/
def visitor : LoginSession := ⟨bytes "true", bytes "7", []⟩

def pixelUpload : Json :=
  .object [(bytes "filename", .str (bytes "dot.png")), (bytes "image", .str (Base64.encodeGroups false onePixel))]

/-- What the page sends for a file of one pixel. -/
def pixelBody : Bytes :=
  bytes "\x7b\"filename\":\"dot.png\",\"image\":\"" ++ Base64.encodeGroups false onePixel ++ bytes "\"\x7d"

theorem pixelBody_parsed : textCodec.parse pixelBody = some pixelUpload :=
  textCodec_faithful.parse_dump (show textCodec.dump pixelUpload = some pixelBody from rfl)

theorem onePixel_taken : preflight defaultPolicy onePixel = .ok ⟨1, 1, false⟩ := by decide +kernel

/-- The error for a body of one byte quotes it. -/
def quoting : Texts :=
  ⟨bytes "stoi", bytes "parse error at line 1, column 1: invalid literal; last read: '" ++ [255] ++ bytes "'"⟩

/-- The pixel of the first request does not decode, and the second has no JSON. -/
def damagedUploads : List UploadObs :=
  [.asked 0 visitor pixelBody, .built 0 ⟨0, 7⟩, .predicted 0 ⟨0, 7⟩ onePixel,
    .replied 0 (thrown [] (.runtimeError (bytes "Failed to decode image from buffer"))),
    .asked 1 visitor [255], .threw 1]

theorem damagedUploads_run : ∃ s, Run (UploadStep textCodec) {} damagedUploads s ∧ s.nextRequest = 2 := by
  have read : uploadArguments textCodec quoting pixelBody =
      .ok (bytes "dot.png", Base64.encodeGroups false onePixel) := by
    rw [uploadArguments, if_neg (by decide), parseBody, pixelBody_parsed]
    rfl
  have request : uploadRequest textCodec quoting visitor pixelBody =
      .ok (7, bytes "dot.png", Base64.encodeGroups false onePixel) := by
    have authorized : authorize quoting visitor = .ok 7 := rfl
    rw [uploadRequest, authorized, read]
    rfl
  have decoded : decodeImage defaultPolicy [] (Base64.encodeGroups false onePixel) = .ok onePixel := by
    rw [decodeImage_encodeGroups, onePixel_taken]
    rfl
  have handled : ({} : Uploads).handle textCodec quoting [] (fun _ => none) visitor pixelBody =
      ([.asked 0 visitor pixelBody],
        ({ policy := some defaultPolicy } : Uploads).enter (some ⟨7, bytes "dot.png", onePixel, none⟩)) := by
    have policy : ({} : Uploads).getPolicy (fun _ => none) = .ok defaultPolicy := rfl
    rw [Uploads.handle, request]
    dsimp only
    rw [policy]
    dsimp only
    rw [decoded]
    rfl
  have failed : predictBufferGuarded defaultPolicy ⟨fun _ => some .empty, fun _ _ => .error .other, nofun⟩
      onePixel = .error (.runtimeError (bytes "Failed to decode image from buffer")) := by
    rw [predictBufferGuarded, onePixel_taken]
  have asked : Run (UploadStep textCodec) {} _ _ :=
    .single (.handle quoting [] (fun _ => none) visitor pixelBody)
  rw [handled] at asked
  have built := asked.tail (.build (n := 0) rfl rfl rfl)
  have predicted := built.tail (.predictFails (n := 0) _ [] rfl rfl rfl failed)
  have told : answer textCodec 0 (thrown [] (.runtimeError (bytes "Failed to decode image from buffer"))) =
      .replied 0 _ := if_pos (by decide +kernel)
  rw [told] at predicted
  have refused := predicted.tail (.handle quoting [] (fun _ => none) visitor [255])
  exact ⟨_, refused, rfl⟩

theorem uploads_run_damaged : ∃ s, Run (UploadStep textCodec) {} damagedUploads s ∧
    (∀ n < 2, Course textCodec s.policy s.imageRecognizerMap n (shownBy n damagedUploads) (s.requests n)) ∧
    ∀ u, damagedUploads.countP (·.builds u) ≤ 1 := by
  obtain ⟨s, run, two⟩ := damagedUploads_run
  obtain ⟨courses, -, -, once⟩ := uploads_run run
  exact ⟨s, run, fun n before => courses n (two ▸ before), once⟩

end runs

/-! ## The page -/

/-- `readAsDataURL`, for a file of type `mime`. -/
def dataUrl (mime file : Bytes) : Bytes :=
  bytes "data:" ++ mime ++ bytes ";base64," ++ Base64.encodeGroups false file

/-- `url.split(',')[1]`. -/
def secondPiece (url : Bytes) : Option Bytes :=
  match url.dropWhile (· ≠ 44) with
  | [] => none
  | _ :: rest => some (rest.takeWhile (· ≠ 44))

theorem comma_not_mem {url : Bool} {s : Bytes} : (44 : UInt8) ∉ Base64.encodeGroups url s := by
  intro member
  have outside : (44 : UInt8) ∉ Base64.base64Chars url ∧ 44 ≠ Base64.trailingChar url := by
    cases url <;> decide
  exact (Base64.mem_encodeGroups member).elim outside.1 outside.2

theorem secondPiece_dataUrl {mime file : Bytes} (plain : (44 : UInt8) ∉ mime) :
    secondPiece (dataUrl mime file) = some (Base64.encodeGroups false file) := by
  have front : ∀ c ∈ bytes "data:" ++ mime ++ bytes ";base64", decide (c ≠ 44) = true := by
    intro c member
    apply decide_eq_true
    rintro rfl
    rw [List.mem_append, List.mem_append] at member
    rcases member with (early | there) | late
    · revert early
      decide
    · exact plain there
    · revert late
      decide
  have url : dataUrl mime file = (bytes "data:" ++ mime ++ bytes ";base64") ++
      44 :: Base64.encodeGroups false file := by
    rw [dataUrl, show bytes ";base64," = bytes ";base64" ++ [44] from rfl]
    simp only [List.append_assoc, List.singleton_append]
  have rest : Base64.encodeGroups false file = (Base64.encodeGroups false file).takeWhile (· ≠ 44) := by
    apply (List.takeWhile_eq_self_iff.mpr ?_).symm
    exact fun c member => decide_eq_true fun same => comma_not_mem (same ▸ member)
  rw [secondPiece, url, List.dropWhile_append_of_pos front]
  exact congrArg some rest.symm

/-- What `upload.html` sends for a file comes to exactly its bytes, once the body has reached the
handler: they go to the models just when `Preflight` takes them, and else its error is the answer; only
an empty file is refused before. -/
theorem browser_upload {codec : JsonCodec} {texts : Texts} {login : LoginSession} {userId : Int32}
    {filename body image : Bytes} {j : Json} (policy : Policy) (outOfRange mime file : Bytes)
    (plain : (44 : UInt8) ∉ mime) (piece : secondPiece (dataUrl mime file) = some image)
    (payload : j.field? (bytes "filename") = some (.str filename) ∧
      j.field? (bytes "image") = some (.str image))
    (some_ : body ≠ []) (parsed : codec.parse body = some j)
    (authorized : authorize texts login = .ok userId) :
    uploadRequest codec texts login body =
      (if file = [] then .error (Chat.failure (bytes "No image data provided"))
      else .ok (userId, filename, image)) ∧
    decodeImage policy outOfRange image =
      ((preflight policy file).map fun _ => file).mapError fun fault => thrown [] fault.exception := by
  rw [secondPiece_dataUrl plain] at piece
  cases piece
  refine ⟨?_, decodeImage_encodeGroups policy outOfRange file⟩
  have arguments : uploadArguments codec texts body =
      .ok (filename, Base64.encodeGroups false file) := by
    rw [uploadArguments, if_neg (fun empty => some_ (List.isEmpty_iff.mp empty)), parseBody, parsed]
    dsimp only
    change textOr texts [] j (bytes "filename") >>= _ = _
    rw [textOr, payload.1]
    change textOr texts [] j (bytes "image") >>= _ = _
    rw [textOr, payload.2]
    rfl
  have empty : (Base64.encodeGroups false file).isEmpty = true ↔ file = [] := by
    rw [List.isEmpty_iff, ← List.length_eq_zero_iff, Base64.length_encodeGroups,
      ← List.length_eq_zero_iff]
    omega
  rw [uploadRequest, authorized, arguments]
  exact if_congr empty rfl rfl

theorem browser_upload_pixel :
    uploadRequest textCodec quoting visitor pixelBody =
      .ok (7, bytes "dot.png", Base64.encodeGroups false onePixel) ∧
    decodeImage defaultPolicy [] (Base64.encodeGroups false onePixel) = .ok onePixel := by
  have piece : secondPiece (dataUrl (bytes "image/png") onePixel) = some _ :=
    secondPiece_dataUrl (by decide)
  obtain ⟨request, decoded⟩ := browser_upload defaultPolicy [] (bytes "image/png") onePixel
    (by decide) piece ⟨rfl, rfl⟩ (by decide) pixelBody_parsed (show authorize quoting visitor = .ok 7 from rfl)
  rw [onePixel_taken] at decoded
  exact ⟨request, decoded⟩

end AIService.Image
