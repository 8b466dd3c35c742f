import FlaskXxlJob.Python.Value

/-! What an executor endpoint answers: the official `ReturnT`, and the page of a log. -/
namespace FlaskXxlJob.Response
open Python

def successCode : ℤ := 200
def failCode : ℤ := 500

structure XXLJobResponse where
  code : ℤ := successCode
  msg : Option String := none
  content : Value := .none

def XXLJobResponse.success (msg : Option String) (content : Value) : XXLJobResponse :=
  ⟨successCode,msg,content⟩

def XXLJobResponse.failure (msg : String) : XXLJobResponse := ⟨failCode,some msg,.none⟩

@[simp] theorem XXLJobResponse.failure_code (msg : String) : (failure msg).code = 500 := rfl

structure LogResponse where
  fromLineNum : ℤ := 0
  toLineNum : ℤ := 0
  logContent : String := ""
  isEnd : Bool := false

def LogResponse.toWire (r : LogResponse) : Value :=
  .dict [("fromLineNum",.int r.fromLineNum),("toLineNum",.int r.toLineNum),
    ("logContent",.str r.logContent),("isEnd",.bool r.isEnd)]

mutual
/-- Whether `jsonify` can encode a value; `custom` answers for objects of other types. -/
def jsonable (custom : String → Bool) : Value → Bool
  | .list items => jsonableItems custom items
  | .dict items => jsonableEntries custom items
  | .other typeName => custom typeName
  | _ => true

def jsonableItems (custom : String → Bool) : List Value → Bool
  | [] => true
  | v :: vs => jsonable custom v && jsonableItems custom vs

def jsonableEntries (custom : String → Bool) : List (String × Value) → Bool
  | [] => true
  | e :: es => jsonable custom e.2 && jsonableEntries custom es
end

end FlaskXxlJob.Response
