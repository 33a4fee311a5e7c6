import Blockwork.Palette.Basic

/-!
The sections that every palette has.
-/

namespace Blockwork.Palette

open Recipe

def control : Section where
  name := "Control"
  recipes := [
    ("control_forever", .steps [.emit .forever, .loopBody "SUBSTACK", .emit .loopEnd]),
    ("control_repeat", .steps [.input "TIMES", .emit .times, .loopBody "SUBSTACK",
      .emit .loopEnd]),
    ("control_repeat_until", .steps [.emit .untilLoop, .condition "CONDITION", .emit .untilTest,
      .loopBody "SUBSTACK", .emit .loopEnd]),
    ("control_while", .steps [.emit .untilLoop, .condition "CONDITION", .emit (.unary .not),
      .emit .untilTest, .loopBody "SUBSTACK", .emit .loopEnd]),
    -- The variable runs through 1, 2, … up to the value, a fraction counting as one more.
    ("control_for_each", .needs variableField [.variableEntry, .input "VALUE",
      .emit (.unary .ceiling), .emit .times, .emit .round, .var .set, .loopBody "SUBSTACK",
      .emit .loopEnd] []),
    ("control_if", .steps [.condition "CONDITION", .emit .branch, .body "SUBSTACK",
      .emit .endBranch]),
    ("control_if_else", .steps [.condition "CONDITION", .emit .branch, .body "SUBSTACK",
      .emit .otherwise, .body "SUBSTACK2", .emit .endBranch]),
    ("control_wait", .steps [.input "DURATION", .call .startWait, .emit .checkpoint,
      .call .wait]),
    ("control_wait_until", .steps [.emit .checkpoint, .condition "CONDITION",
      .call .waitUntil]),
    ("control_stop", .choose "STOP_OPTION" [(0, [.call .stopAll]),
      (1, [.call .stopThisScript]), (2, [.call .stopOtherScripts])] []),
    ("control_create_clone_of", native ["CLONE_OPTION"] .createClone),
    ("control_delete_this_clone", native [] .deleteClone)]
  hats := ["control_start_as_clone"]
  options := [
    (("STOP_OPTION", "all"), 0), (("STOP_OPTION", "this script"), 1),
    (("STOP_OPTION", "other scripts in sprite"), 2),
    (("STOP_OPTION", "other scripts in stage"), 2)]

def events : Section where
  name := "Events"
  recipes := [
    ("event_broadcast", native ["BROADCAST_INPUT"] .broadcast),
    ("event_broadcastandwait", native ["BROADCAST_INPUT"] .broadcastAndWait)]
  hats := ["event_whenflagclicked", "event_whenbroadcastreceived", "event_whenkeypressed",
    "event_whenthisspriteclicked", "event_whenstageclicked"]
  predicates := [
    ("event_whengreaterthan", .choose "WHENGREATERTHANMENU"
      [(0, [.input "VALUE", .call .timerAbove]), (1, [.input "VALUE", .call .loudnessAbove])]
      [.const (.bool false)])]
  options := [(("WHENGREATERTHANMENU", "TIMER"), 0), (("WHENGREATERTHANMENU", "LOUDNESS"), 1)]

/-- A bubble that is taken away after some seconds. -/
def timedBubble (kind : BubbleKind) : Recipe :=
  .steps [.input "MESSAGE", .input "SECS", .call (.startBubble kind), .emit .checkpoint,
    .call .wait, .call .clearBubble]

def looks : Section where
  name := "Looks"
  recipes := [
    ("looks_say", native ["MESSAGE"] (.bubble .say)),
    ("looks_think", native ["MESSAGE"] (.bubble .think)),
    ("looks_sayforsecs", timedBubble .say),
    ("looks_thinkforsecs", timedBubble .think),
    ("looks_show", native [] (.setVisible true)),
    ("looks_hide", native [] (.setVisible false))]

def motion : Section where
  name := "Motion"
  recipes := [
    ("motion_movesteps", native ["STEPS"] (.motion .steps)),
    ("motion_turnright", native ["DEGREES"] (.motion .turnRight)),
    ("motion_turnleft", native ["DEGREES"] (.motion .turnLeft)),
    ("motion_gotoxy", native ["X", "Y"] (.motion .goTo)),
    ("motion_setx", native ["X"] (.motion .setX)),
    ("motion_sety", native ["Y"] (.motion .setY)),
    ("motion_changexby", native ["DX"] (.motion .changeX)),
    ("motion_changeyby", native ["DY"] (.motion .changeY)),
    ("motion_pointindirection", native ["DIRECTION"] (.motion .point)),
    ("motion_xposition", native [] (.reading .xPosition)),
    ("motion_yposition", native [] (.reading .yPosition)),
    ("motion_direction", native [] (.reading .direction))]

/-- The functions of the block that offers a choice of them, in the order of their numbers. -/
def mathFunctions : List (String × Step) := [
  ("abs", .emit (.unary .abs)), ("floor", .emit (.unary .floor)),
  ("ceiling", .emit (.unary .ceiling)), ("sqrt", .emit (.unary .sqrt)),
  ("sin", .emit (.unary .sin)), ("cos", .emit (.unary .cos)), ("tan", .emit (.unary .tan)),
  ("asin", .emit (.unary .asin)), ("acos", .emit (.unary .acos)),
  ("atan", .emit (.unary .atan)), ("ln", .call (.math .ln)), ("log", .call (.math .log)),
  ("e ^", .call (.math .exp)), ("10 ^", .call (.math .tenPower))]

def operators : Section where
  name := "Operators"
  recipes := [
    ("operator_add", binary "NUM1" "NUM2" .add),
    ("operator_subtract", binary "NUM1" "NUM2" .subtract),
    ("operator_multiply", binary "NUM1" "NUM2" .multiply),
    ("operator_divide", binary "NUM1" "NUM2" .divide),
    ("operator_mod", binary "NUM1" "NUM2" .modulo),
    ("operator_random", .steps [.input "FROM", .input "TO", .emit .random]),
    ("operator_round", unary "NUM" .round),
    ("operator_mathop", .choose "OPERATOR"
      (mathFunctions.zipIdx.map fun ((_, f), i) => (i, [.input "NUM", f]))
      [.const (.number 0)]),
    ("operator_gt", binary "OPERAND1" "OPERAND2" .greater),
    ("operator_lt", binary "OPERAND1" "OPERAND2" .less),
    ("operator_equals", binary "OPERAND1" "OPERAND2" .equal),
    ("operator_and", binary "OPERAND1" "OPERAND2" .and),
    ("operator_or", binary "OPERAND1" "OPERAND2" .or),
    ("operator_not", unary "OPERAND" .not),
    ("operator_join", binary "STRING1" "STRING2" .join),
    ("operator_letter_of", binary "STRING" "LETTER" .letter),
    ("operator_length", unary "STRING" .length),
    ("operator_contains", binary "STRING1" "STRING2" .contains)]
  booleans := ["operator_gt", "operator_lt", "operator_equals", "operator_and", "operator_or",
    "operator_not", "operator_contains"]
  options := mathFunctions.zipIdx.map fun ((name, _), i) => (("OPERATOR", name), i)

def sensing : Section where
  name := "Sensing"
  recipes := [
    ("sensing_askandwait", native ["QUESTION"] .ask),
    ("sensing_answer", native [] (.reading .answer)),
    ("sensing_timer", native [] (.reading .timer)),
    ("sensing_resettimer", native [] .resetTimer),
    ("sensing_mousex", native [] (.reading .mouseX)),
    ("sensing_mousey", native [] (.reading .mouseY)),
    ("sensing_mousedown", native [] (.reading .mouseDown)),
    ("sensing_keypressed", native ["KEY_OPTION"] .keyPressed),
    ("sensing_loudness", native [] (.reading .loudness)),
    ("sensing_of", .steps [.field "PROPERTY", .input "OBJECT", .call .attributeOf])]
  booleans := ["sensing_mousedown", "sensing_keypressed"]

def data : Section where
  name := "Variables"
  recipes := [
    ("data_setvariableto", onVariable ["VALUE"] .set []),
    ("data_changevariableby", onVariable ["VALUE"] .change []),
    ("data_variable", onVariable [] .read [.emit .null]),
    ("data_addtolist", onList ["ITEM"] .append []),
    ("data_deleteoflist", onList ["INDEX"] .delete []),
    ("data_deletealloflist", onList [] .deleteAll []),
    ("data_insertatlist", onList ["ITEM", "INDEX"] .insert []),
    ("data_replaceitemoflist", onList ["INDEX", "ITEM"] .replace []),
    ("data_itemoflist", onList ["INDEX"] .item [.emit .null]),
    ("data_itemnumoflist", onList ["ITEM"] .indexOf [.emit .null]),
    ("data_lengthoflist", onList [] .length [.emit .null]),
    ("data_listcontainsitem", onList ["ITEM"] .contains [.emit .null]),
    ("data_listcontents", onList [] .read [.emit .null])]
  booleans := ["data_listcontainsitem"]

def myBlocks : Section where
  name := "My Blocks"
  recipes := [
    ("procedures_definition", .definition),
    ("procedures_call", .call),
    ("argument_reporter_string_number", .argument (.number 0)),
    ("argument_reporter_boolean", .argument (.bool false))]
  booleans := ["argument_reporter_boolean"]

/-- The palette of every engine. -/
def builtin : Palette :=
  ⟨[control, events, looks, motion, operators, sensing, data, myBlocks]⟩

/-- A section with one block, which prints a text. -/
def printing : Section where
  name := "Test"
  recipes := [("test_print", native ["STRING"] .print)]

end Blockwork.Palette
